import IncludeAudit.Text.Affix

/-!
# Symbol keys

A symbol is identified by its qualified name and its kind. The name has no leading `::`, which
`SymbolKey.ofName` strips once. `scopes` and `unqualified` read a name at its `::` separators.
-/

namespace IncludeAudit

/-- What a symbol names. -/
inductive SymbolKind where
  /-- A class, struct or union. -/
  | record
  | recordTemplate
  | enumeration
  /-- A typedef or an alias declaration. -/
  | typeAlias
  | function
  | functionTemplate
  /-- A variable. -/
  | object
  /-- A preprocessor definition. -/
  | definition
  deriving DecidableEq, Repr

namespace SymbolKind

/-- Only records and their templates can be declared ahead of their definition. -/
def isForwardDeclarable : SymbolKind → Bool
  | record | recordTemplate => true
  | _ => false

/-- True of the two kinds of template. -/
def isTemplate : SymbolKind → Bool
  | recordTemplate | functionTemplate => true
  | _ => false

/-- The kind in words. -/
def describe : SymbolKind → String
  | record => "class"
  | recordTemplate => "class template"
  | enumeration => "enum"
  | typeAlias => "typedef"
  | function => "function"
  | functionTemplate => "function template"
  | object => "variable"
  | definition => "macro"

end SymbolKind

/-- A qualified name and a kind. -/
structure SymbolKey where
  name : String
  kind : SymbolKind
  deriving DecidableEq, Repr

namespace SymbolKey

/-- A name without the `::` of the global scope in front. -/
def dropGlobalScope (name : String) : String :=
  match Text.dropStart? "::".toList name.toList with
  | some rest => String.ofList rest
  | none => name

/-- The key of a name that may begin with `::`. -/
def ofName (name : String) (kind : SymbolKind) : SymbolKey :=
  ⟨dropGlobalScope name, kind⟩

instance : ToString SymbolKey := ⟨name⟩

/-- The parts of a name between its `::` separators, found from the left. -/
def splitScopes : List Char → List (List Char)
  | [] => [[]]
  | ':' :: ':' :: rest => [] :: splitScopes rest
  | c :: rest =>
    match splitScopes rest with
    | [] => [[c]]
    | part :: parts => (c :: part) :: parts

/-- The enclosing scopes, outermost first. -/
def scopes (k : SymbolKey) : List String :=
  (splitScopes k.name.toList).dropLast.map String.ofList

/-- What follows the last `::` of the name. -/
def unqualified (k : SymbolKey) : String :=
  match Text.breakOnLast? "::".toList k.name.toList with
  | some (_, last) => String.ofList last
  | none => k.name

/-- True if the name continues that of the namespace with `::`. -/
def isIn (k : SymbolKey) (scope : String) : Bool :=
  (Text.dropStart? (scope.toList ++ "::".toList) k.name.toList).isSome

end SymbolKey

end IncludeAudit
