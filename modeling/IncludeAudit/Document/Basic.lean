/-!
# Documents

What a mapping file or a configuration says, whichever notation it is written in: values without
parts, lists, and maps whose entries keep their order and may repeat a key.

One scalar can be read in more than one way. In one notation `true` is no text, and in another it is
a text as well as a truth value. So a `Scalar` lists its readings, and the notation decides which
ones there are. What a text says in a notation is a matter of a `DocumentEngine`.
-/

namespace IncludeAudit

/-- A value without parts, with its readings. -/
structure Scalar where
  text : Option String := none
  truth : Option Bool := none
  isNull : Bool := false
  deriving DecidableEq, Repr

/-- A value of a document. -/
inductive Document where
  | scalar (s : Scalar)
  | list (items : List Document)
  | map (entries : List (Document × Document))
  deriving Repr

/-- What reads texts in the two notations. It gives nothing for a text that breaks the rules. -/
structure DocumentEngine where
  json : String → Option Document
  yaml : String → Option Document

namespace Document

/-- The value of an entry that has none. -/
def null : Document :=
  scalar { isNull := true }

/-- The value as a text. -/
def text? : Document → Option String
  | scalar s => s.text
  | _ => none

/-- The value as a truth value. -/
def truth? : Document → Option Bool
  | scalar s => s.truth
  | _ => none

/-- True of the null value. -/
def isNull : Document → Bool
  | scalar s => s.isNull
  | _ => false

/-- The value as a list with the given reading of its items. -/
def listOf? {α : Type} (item? : Document → Option α) : Document → Option (List α)
  | list items => items.mapM item?
  | _ => none

/-- The value as a list of texts. -/
def texts? : Document → Option (List String) :=
  listOf? text?

/-- The value as one of some names: the name itself, or a map from the name to null. -/
def choice? {α : Type} (choices : List (String × α)) : Document → Option α
  | map [(key, value)] => if value.isNull then key.text?.bind (List.lookup · choices) else none
  | d => d.text?.bind (List.lookup · choices)

/-- Nothing for null, else the value with the given reading. -/
def orNull? {α : Type} (read? : Document → Option α) (d : Document) : Option (Option α) :=
  if d.isNull then some none else (read? d).map some

end Document

end IncludeAudit
