/-!
# Paths

A path is a text with slashes. It names a file by its components, so two paths are the same if their
components are: repeated slashes and inner points do not count, but a point in front does, and `..`
stays as it is. Operations keep the text as it was written, since it is shown in errors.
-/

namespace IncludeAudit

/-- A part of a path. -/
inductive PathPart where
  /-- The slash in front of an absolute path. -/
  | root
  /-- A point in front of a relative path. -/
  | here
  /-- Two points. -/
  | up
  | name (text : String)
  deriving DecidableEq, Repr

/-- The path of a file or directory, as it is written. -/
structure Path where
  text : String
  deriving DecidableEq, Repr

namespace Path

instance : ToString Path := ⟨text⟩

/-- The parts of a text between its slashes. -/
def splitSlashes : List Char → List (List Char)
  | [] => [[]]
  | '/' :: cs => [] :: splitSlashes cs
  | c :: cs =>
    match splitSlashes cs with
    | [] => [[c]]
    | part :: parts => (c :: part) :: parts

/-- Parts with slashes between them. -/
def joinSlashes (parts : List (List Char)) : List Char :=
  ['/'].intercalate parts

/-- The parts of the text between its slashes. -/
def segments (p : Path) : List (List Char) :=
  splitSlashes p.text.toList

/-- True of a path with a slash in front. -/
def isAbsolute (p : Path) : Bool :=
  p.text.toList.head? == some '/'

/-- True of a part that does not count inside a path. -/
def isIdle (segment : List Char) : Bool :=
  segment.isEmpty || segment == ['.']

/-- The component of a part that counts. -/
def partOf (segment : List Char) : PathPart :=
  if segment = ['.', '.'] then .up else .name (String.ofList segment)

/-- The components of the parts that count. -/
def partsOf (segments : List (List Char)) : List PathPart :=
  (segments.filter fun s => !isIdle s).map partOf

/-- The components of a path. -/
def components (p : Path) : List PathPart :=
  match p.segments with
  | [] :: s :: rest => .root :: partsOf (s :: rest)
  | ['.'] :: rest => .here :: partsOf rest
  | segments => partsOf segments

/-- True if both have the same components. -/
def same (p q : Path) : Bool :=
  p.components == q.components

/-- The path below a directory that a text names; an absolute one is not below it. -/
def join (dir : Path) (name : String) : Path :=
  if (Path.mk name).isAbsolute || dir.text.isEmpty then ⟨name⟩
  else if dir.text.toList.getLast? = some '/' then ⟨dir.text ++ name⟩
  else ⟨dir.text ++ "/" ++ name⟩

/-- Parts without those at the end that do not count. -/
def dropIdleEnd (segments : List (List Char)) : List (List Char) :=
  (segments.reverse.dropWhile isIdle).reverse

/-- The path without its last component and what follows it, given what is in front of the parts.
Nothing is left of a path that has no component. -/
def parentBelow (front : List (List Char)) (segments : List (List Char)) :
    Option (List (List Char)) :=
  match dropIdleEnd segments with
  | [] => none
  | segments => some (front ++ dropIdleEnd segments.dropLast)

/-- The directory of a path as the text has it. -/
def parent? (p : Path) : Option Path :=
  match p.segments with
  | [] :: s :: rest =>
    (parentBelow [[]] (s :: rest)).map fun segments =>
      if segments.length = 1 then ⟨"/"⟩ else ⟨String.ofList (joinSlashes segments)⟩
  | ['.'] :: rest =>
    some ((parentBelow [['.']] rest).elim ⟨""⟩ fun segments =>
      ⟨String.ofList (joinSlashes segments)⟩)
  | segments =>
    (parentBelow [] segments).map fun segments => ⟨String.ofList (joinSlashes segments)⟩

/-- What follows the last point of the last component, if something precedes that point. -/
def extension? (p : Path) : Option String :=
  match p.components.getLast? with
  | some (.name name) =>
    let parts := name.toList.reverse.span (· ≠ '.')
    match parts.2 with
    | _ :: _ :: _ => some (String.ofList parts.1.reverse)
    | _ => none
  | _ => none

end Path

end IncludeAudit
