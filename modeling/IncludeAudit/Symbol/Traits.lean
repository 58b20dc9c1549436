import IncludeAudit.Symbol.Key

/-!
# Symbol traits

Facts about a symbol that do not belong to one of its declarations. They are reported piece by
piece and merged: a fact once true stays true, and a later text replaces an earlier one.
-/

namespace IncludeAudit

/-- The keyword that introduces a record. -/
inductive RecordTag where
  | classTag
  | structTag
  | unionTag
  deriving DecidableEq, Repr

/-- The keyword itself. -/
def RecordTag.keyword : RecordTag → String
  | classTag => "class"
  | structTag => "struct"
  | unionTag => "union"

/-- Facts about a symbol. -/
structure SymbolTraits where
  isFinal : Bool := false
  hasDefaultTemplateArgs : Bool := false
  /-- The qualified name of the class around a nested class. -/
  enclosingClass : Option String := none
  inInlineNamespace : Bool := false
  /-- Known to every compiler, so that no header is needed. -/
  isBuiltin : Bool := false
  tag : RecordTag := .classTag
  /-- The parameter list of a template, such as `template <typename T>`. -/
  templateHeader : Option String := none
  deriving DecidableEq, Repr

namespace SymbolTraits

instance : Inhabited SymbolTraits := ⟨{}⟩

/-- The facts after `new` was reported on top of `old`. -/
def merge (old new : SymbolTraits) : SymbolTraits where
  isFinal := old.isFinal || new.isFinal
  hasDefaultTemplateArgs := old.hasDefaultTemplateArgs || new.hasDefaultTemplateArgs
  enclosingClass := new.enclosingClass.or old.enclosingClass
  inInlineNamespace := old.inInlineNamespace || new.inInlineNamespace
  isBuiltin := old.isBuiltin || new.isBuiltin
  tag := if new.tag = .classTag then old.tag else new.tag
  templateHeader := new.templateHeader.or old.templateHeader

end SymbolTraits

/-- A symbol with the facts known about it. -/
structure Symbol where
  key : SymbolKey
  /-- In a namespace whose symbols are never declared by others. -/
  isSystem : Bool := false
  traits : SymbolTraits := {}
  deriving DecidableEq, Repr

end IncludeAudit
