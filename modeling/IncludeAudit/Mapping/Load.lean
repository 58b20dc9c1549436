import IncludeAudit.Mapping.Entry
import IncludeAudit.Mapping.LoadError
import IncludeAudit.Mapping.RefStack
import IncludeAudit.Provider.Map

/-!
# Loading mapping files

Adds the entries of a mapping file to a provider map, and at each reference those of the file that
it names. Such a file is looked for beside the one that refers to it and then in the directories of
the search path. A file that was loaded is not loaded again, and one that is being read must not be
referred to.

What was added before an error stays, so each step gives a result and a state.
-/

namespace IncludeAudit

/-- Where mapping files are looked for, and what reads them. -/
structure MappingSource where
  files : FileStore
  searchPath : List Path := []
  documents : DocumentEngine
  patterns : PatternEngine

/-- What is loaded so far. -/
structure Loaded where
  /-- The loaded files; a file comes after those it refers to. -/
  paths : List Path := []
  builder : ProviderBuilder := {}

namespace Loaded

/-- True of the loaded files. -/
def contains (s : Loaded) (p : Path) : Bool :=
  s.paths.any p.same

end Loaded

namespace MappingSource

/-- The first file with the given name below one of the directories. -/
def findBelow? (source : MappingSource) (name : String) (dirs : List Path) : Option Path :=
  (dirs.map (·.join name)).find? source.files.isFile

/-- The file that a reference names. -/
def findRef? (source : MappingSource) (origin : Path) (name : String) : Option Path :=
  if (Path.mk name).isAbsolute then
    if source.files.isFile ⟨name⟩ then some ⟨name⟩ else none
  else source.findBelow? name (origin.parent?.toList ++ source.searchPath)

/-- Checks that a row has the delimiters that it needs. -/
def checkRow (row : MappingRow) (anySource : Bool) : Except EntryFault Unit :=
  if !FileName.isDelimited row.target then .error (.target row.target)
  else if anySource || FileName.isDelimited row.source || row.source.toList.head? == some '@' then
    .ok ()
  else .error (.source row.source)

/-- The builder with an entry that is no reference. -/
def addEntry (source : MappingSource) (b : ProviderBuilder) :
    MappingEntry → Except EntryFault ProviderBuilder
  | .file row => do
    checkRow row false
    return b.addMappingText source.patterns row.source row.visibility row.target
      row.targetVisibility
  | .symbol row => do
    checkRow row true
    let header := FileName.ofText row.target
    return (b.markVisibility header row.targetVisibility).addSymbol row.source header
  | .explicit row kind? => do
    checkRow row true
    let (kind, pattern) := match kind? with
      | some kind => (kind, row.source)
      | none => MatchKind.detect row.source
    return b.addMapping source.patterns kind pattern row.visibility (.ofText row.target)
      row.targetVisibility
  | .ref _ => return b

/-- Adds the entries of a file, up to the first error. `follow` loads a file that an entry refers
to. -/
def addEntries (source : MappingSource) (origin : Path)
    (follow : Path → Loaded → Except LoadError Unit × Loaded) :
    List MappingEntry → Loaded → Except LoadError Unit × Loaded
  | [], s => (.ok (), s)
  | .ref name :: entries, s =>
    match source.findRef? origin name with
    | none => (.error (.missingRef origin name), s)
    | some p =>
      match follow p s with
      | (.error e, s) => (.error e, s)
      | (.ok (), s) => source.addEntries origin follow entries s
  | entry :: entries, s =>
    match source.addEntry s.builder entry with
    | .error fault => (.error (.invalidEntry origin fault), s)
    | .ok builder => source.addEntries origin follow entries { s with builder }

/-- Loads a file while those on the stack are being read. -/
def loadWithin (source : MappingSource) (stack : RefStack) (p : Path) (s : Loaded) :
    Except LoadError Unit × Loaded :=
  if fresh : stack.contains p = false then
    if s.contains p then (.ok (), s)
    else
      match found : source.files.read p with
      | .error cause => (.error (.unreadable p cause), s)
      | .ok text =>
        match MappingEntry.parse? source.documents (.ofPath p) text with
        | none => (.error (.malformed p), s)
        | some entries =>
          let inner := stack.push p fresh (FileStore.utf8ByteSize_le_of_read found)
          match source.addEntries p (source.loadWithin inner) entries s with
          | (.error e, s) => (.error e, s)
          | (.ok (), s) => (.ok (), { s with paths := s.paths ++ [p] })
  else (.error (.refCycle (stack.top?.getD p) p), s)
termination_by RefStack.bound - stack.paths.length
decreasing_by
  have := inner.length_paths_lt
  simp only [inner, RefStack.length_paths_push] at this ⊢
  omega

/-- Loads a file and all that it refers to. -/
def load (source : MappingSource) (p : Path) (s : Loaded) : Except LoadError Unit × Loaded :=
  source.loadWithin .empty p s

/-- Loads files in turn, up to the first error. -/
def loadAll (source : MappingSource) : List Path → Loaded → Except LoadError Unit × Loaded
  | [], s => (.ok (), s)
  | p :: ps, s =>
    match source.load p s with
    | (.error e, s) => (.error e, s)
    | (.ok (), s) => source.loadAll ps s

end MappingSource

end IncludeAudit
