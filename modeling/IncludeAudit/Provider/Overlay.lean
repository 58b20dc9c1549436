import IncludeAudit.Ordered.Map
import IncludeAudit.Ordered.Set
import IncludeAudit.Pattern.Basic

/-!
# Provider facts of one compilation unit

What the text of a compilation unit says about which file provides what: pragmas, re-exports, and
two conventions on paths.

* A file below a directory `internal` is private. Its includers provide it, and the files beside the
  directory may include it.
* A file `<asm-NAME/...>` is private, and the file of the same path below `asm` provides it.
-/

namespace IncludeAudit

/-- Files that may include a private file. -/
inductive FriendRule where
  /-- Those whose text matches. -/
  | expression (matchesText : String → Bool)
  /-- Those whose text begins so and goes on within the line. -/
  | beginning (start : List Char)

/-- True of the files that the rule admits. -/
def FriendRule.admits (rule : FriendRule) (f : FileName) : Bool :=
  match rule with
  | expression matchesText => matchesText f.text
  | beginning start => (Text.dropStart? start f.chars).any fun rest => !rest.contains '\n'

/-- Provider facts of one compilation unit. -/
structure Overlay where
  /-- Files that say that they are private, with the header that they name in their place. -/
  privates : OrderedMap FileName (Option FileName) := {}
  /-- Files that are private by convention, with the files that provide them. -/
  conventions : OrderedMap FileName (List FileName) := {}
  friends : OrderedMap FileName (List FriendRule) := {}
  /-- Re-exported files with the files that re-export them. -/
  exporters : OrderedMap FileName (List FileName) := {}
  alwaysKeep : OrderedSet FileName := {}

namespace Overlay

/-- A private pragma. A header that it names replaces one named earlier. -/
def markPrivate (o : Overlay) (f : FileName) (replacement : Option FileName) : Overlay :=
  { o with privates := o.privates.upsert f fun old => replacement.or old.join }

/-- Adds a rule on who may include a private file. -/
def addFriendRule (o : Overlay) (f : FileName) (rule : FriendRule) : Overlay :=
  { o with friends := o.friends.upsert f fun old => old.getD [] ++ [rule] }

/-- A friend pragma: the includers whose text matches may include the file. -/
def addFriend (o : Overlay) (engine : PatternEngine) (f : FileName) (pattern : String) :
    Except PatternError Overlay :=
  match engine.readWhole pattern with
  | .ok admits => .ok (o.addFriendRule f (.expression admits))
  | .error e => .error e

/-- The exporter provides all that the exported file provides. A file does not export itself. -/
def addExport (o : Overlay) (exported exporter : FileName) : Overlay :=
  if exported = exporter then o
  else { o with exporters := o.exporters.addTo exported exporter }

/-- Every includer keeps the file. -/
def markAlwaysKeep (o : Overlay) (f : FileName) : Overlay :=
  { o with alwaysKeep := o.alwaysKeep.insert f }

/-- A provider by convention. -/
def addConvention (o : Overlay) (f provider : FileName) : Overlay :=
  { o with conventions := o.conventions.addTo f provider }

/-- What precedes the first `internal/` in the text of a file, if that begins a component. -/
def internalStart? (f : FileName) : Option (List Char) :=
  match Text.breakOn? "internal/".toList f.chars with
  | some (before, _) =>
    if before.length = 1 ∨ before.getLast? = some '/' then some before else none
  | none => none

/-- The provider of a file `<asm-NAME/...>`. -/
def machineProvider? (f : FileName) : Option FileName :=
  if f.isAngled ∧ (Text.dropStart? "asm-".toList f.path.toList).isSome then
    (Text.breakOn? ['/'] f.path.toList).map fun parts =>
      .angled (String.ofList ("asm/".toList ++ parts.2))
  else none

/-- Applies the first convention to an include. -/
def observeInternal (o : Overlay) (includer included : FileName) : Overlay :=
  match internalStart? included with
  | some start =>
    if includer = included then o
    else (o.addConvention included includer).addFriendRule included (.beginning start)
  | none => o

/-- Applies the second convention to an included file. -/
def observeMachine (o : Overlay) (included : FileName) : Overlay :=
  match machineProvider? included with
  | some provider => o.addConvention included provider
  | none => o

/-- Applies both conventions to an include. -/
def observeInclude (o : Overlay) (includer included : FileName) : Overlay :=
  (o.observeInternal includer included).observeMachine included

/-- The private pragma of a file: nothing, or the header that it names, if it names one. -/
def privatePragma? (o : Overlay) (f : FileName) : Option (Option FileName) :=
  o.privates.find? f

/-- The files that provide a file by convention. -/
def conventionTargets (o : Overlay) (f : FileName) : List FileName :=
  (o.conventions.find? f).getD []

/-- True of a file that is private by convention. -/
def isPrivateByConvention (o : Overlay) (f : FileName) : Bool :=
  o.conventions.contains f

/-- True if the includer may include the private file. -/
def isFriend (o : Overlay) (includer f : FileName) : Bool :=
  ((o.friends.find? f).getD []).any (·.admits includer)

/-- The files that re-export a file. -/
def exportersOf (o : Overlay) (f : FileName) : List FileName :=
  (o.exporters.find? f).getD []

/-- True if every includer keeps the file. -/
def isAlwaysKeep (o : Overlay) (f : FileName) : Bool :=
  o.alwaysKeep.contains f

/-- Every file that some fact names as a provider. -/
def providers (o : Overlay) : List FileName :=
  o.privates.values.filterMap id ++ o.conventions.values.flatten ++ o.exporters.values.flatten

end Overlay

end IncludeAudit
