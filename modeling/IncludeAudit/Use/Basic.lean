import IncludeAudit.Position
import IncludeAudit.Symbol.Key

/-!
# Uses

One reference to a symbol in the text of a file, with what is known of how it is used. The hints
decide whether the use needs the definition of the symbol or only a declaration.
-/

namespace IncludeAudit

/-- How a symbol is used. -/
structure UseHints where
  /-- Not written in the text: a defaulted member, a deduced argument. -/
  implicit : Bool := false
  /-- Only inside the body of the symbol's own declaration. -/
  localToDeclaration : Bool := false
  pointerOrReference : Bool := false
  dereferenced : Bool := false
  memberAccess : Bool := false
  /-- A value of the type is made, copied or destroyed. -/
  valueUse : Bool := false
  sizeofOrAlignof : Bool := false
  baseClass : Bool := false
  /-- A parameter or a result by value of a function that is defined or called. -/
  byValueSignature : Bool := false
  explicitInstantiation : Bool := false
  /-- In the argument list that selects a specialization. -/
  specializationSelector : Bool := false
  /-- The container template of which the type is the element. -/
  container : Option String := none
  /-- A dependent type in a template that is not instantiated. -/
  dependent : Bool := false
  deriving DecidableEq, Repr

/-- A using-declaration, typedef or alias template through which a use is made. -/
structure AliasRef where
  file : FileName
  isUsingDeclaration : Bool
  deriving DecidableEq, Repr

/-- One reference to a symbol. -/
structure Use where
  symbol : SymbolKey
  location : Location
  /-- The file whose include list the use concerns. -/
  referencingFile : FileName := location.expansion.file
  hints : UseHints := {}
  /-- The template arguments of the specialization that is named. -/
  specialization : Option String := none
  through : Option AliasRef := none
  deriving DecidableEq, Repr

/-- The line of the use where it takes effect. -/
def Use.line (u : Use) : Nat :=
  u.location.expansion.line

end IncludeAudit
