import IncludeAudit.Document.Basic

/-!
# Records in documents

A record is written as a map from the names of its fields, or as a list of its fields in their
order. `Fields.of?` finds the fields: of a map it skips other keys and refuses a repeated field, and
of a list it refuses what exceeds the fields. `required?` and `optional?` read one field.
-/

namespace IncludeAudit

/-- The fields of a record that a document gives, by their names. -/
structure Fields where
  given : List (String × Document)

namespace Fields

/-- The entries of a map whose keys are among the names. Every key has to be a text. -/
def known? (names : List String) : List (Document × Document) → Option (List (String × Document))
  | [] => some []
  | (key, value) :: entries => do
    let name ← key.text?
    let others ← known? names entries
    if names.contains name then
      if others.any (·.1 == name) then none else some ((name, value) :: others)
    else some others

/-- The fields that a document gives of a record with fields of the given names. -/
def of? (names : List String) : Document → Option Fields
  | .map entries => (known? names entries).map Fields.mk
  | .list items => if names.length < items.length then none else some ⟨names.zip items⟩
  | .scalar _ => none

/-- A field that has to be there. -/
def required? {α : Type} (f : Fields) (name : String) (read? : Document → Option α) : Option α :=
  (f.given.lookup name).bind read?

/-- A field with a value for a record that does not give it. -/
def optional? {α : Type} (f : Fields) (name : String) (read? : Document → Option α) (default : α) :
    Option α :=
  match f.given.lookup name with
  | some d => read? d
  | none => some default

end Fields

end IncludeAudit
