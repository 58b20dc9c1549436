import IncludeAudit.Diagnostic.Log
import IncludeAudit.Ordered.Map
import IncludeAudit.Pattern.Basic
import IncludeAudit.Provider.Builtin

/-!
# Provider maps

Which public file provides what a private file declares, for all compilation units. A map has the
edges of the configuration, whose sources are patterns, and those of the built-in tables, whose
sources are files. Visibility is told of files: by the configuration, by a pattern that accepts the
file, or by the tables.

A `ProviderBuilder` is a map in the making. It reports patterns that the engine cannot read and
leaves their edges out.
-/

namespace IncludeAudit

/-- A configured mapping: `target` provides the files that `source` accepts. -/
structure ProviderEdge where
  source : Pattern
  /-- The visibility of the files that the source accepts. -/
  visibility : Visibility
  target : FileName
  targetVisibility : Visibility

/-- A mapping of the built-in tables. -/
structure BuiltinEdge where
  source : FileName
  visibility : Visibility
  target : FileName
  targetVisibility : Visibility

/-- A file that provides another. -/
structure Target where
  file : FileName
  visibility : Visibility
  deriving DecidableEq, Repr

/-- Which file provides which, for all compilation units. -/
structure ProviderMap where
  /-- The configured mappings, in the order of the configuration. -/
  edges : List ProviderEdge := []
  /-- The visibility that the configuration gives to files. -/
  declared : OrderedMap FileName Visibility := {}
  builtin : List BuiltinEdge := []
  /-- Files that are public whatever is said of them. -/
  alwaysPublic : List FileName := []
  /-- The headers of symbols that are known by name. -/
  symbols : OrderedMap String (List FileName) := {}

namespace ProviderMap

/-- The map that knows nothing. -/
def empty : ProviderMap :=
  {}

/-- The target of a configured mapping. -/
def targetOf (e : ProviderEdge) : Target :=
  ⟨e.target, e.targetVisibility⟩

/-- The edges whose source is a single file. -/
def exactTargets (m : ProviderMap) (f : FileName) : List Target :=
  (m.edges.filter fun e => e.source.file? == some f).map targetOf

/-- The edges whose source is a glob or a regular expression that accepts the file. -/
def patternEdges (m : ProviderMap) (f : FileName) : List ProviderEdge :=
  m.edges.filter fun e => e.source.file?.isNone && e.source.accepts f

/-- The targets of the patterns that accept the file. -/
def patternTargets (m : ProviderMap) (f : FileName) : List Target :=
  (m.patternEdges f).map targetOf

/-- The visibility that the first pattern gives that accepts the file. -/
def patternVisibility (m : ProviderMap) (f : FileName) : Option Visibility :=
  (m.patternEdges f).head?.map (·.visibility)

/-- The targets of the file in the built-in tables. -/
def builtinTargets (m : ProviderMap) (f : FileName) : List Target :=
  (m.builtin.filter (·.source == f)).map fun e => ⟨e.target, e.targetVisibility⟩

/-- The visibility that the first row of the built-in tables gives that mentions the file. -/
def builtinVisibility (m : ProviderMap) (f : FileName) : Option Visibility :=
  m.builtin.findSome? fun e =>
    if e.source = f then some e.visibility
    else if e.target = f then some e.targetVisibility
    else none

/-- The headers of a symbol that is known by name. -/
def symbolProviders (m : ProviderMap) (symbol : String) : List FileName :=
  (m.symbols.find? symbol).getD []

/-- Every file that is the target of a mapping. -/
def targets (m : ProviderMap) : List FileName :=
  m.edges.map (·.target) ++ m.builtin.map (·.target)

end ProviderMap

/-- A provider map in the making, with what was reported while it was made. -/
structure ProviderBuilder where
  map : ProviderMap := {}
  log : DiagnosticLog := []

namespace ProviderBuilder

/-- The visibility of a file, whatever was said of it before. -/
def markVisibility (b : ProviderBuilder) (f : FileName) (v : Visibility) : ProviderBuilder :=
  { b with map := { b.map with declared := b.map.declared.set f v } }

/-- The visibility of a file of which nothing was said before. -/
def suggestVisibility (b : ProviderBuilder) (f : FileName) (v : Visibility) : ProviderBuilder :=
  { b with map := { b.map with declared := b.map.declared.setIfAbsent f v } }

/-- A header for a symbol that is known by name. -/
def addSymbol (b : ProviderBuilder) (symbol : String) (header : FileName) : ProviderBuilder :=
  { b with map := { b.map with symbols := b.map.symbols.addTo symbol header } }

/-- An edge, with what it says of the visibility of its two ends. The end of an edge never changes
what is known of it; its beginning does. -/
def addEdge (b : ProviderBuilder) (e : ProviderEdge) : ProviderBuilder :=
  let b := match e.source.file? with
    | some f => b.markVisibility f e.visibility
    | none => b
  let b := b.suggestVisibility e.target e.targetVisibility
  { b with map := { b.map with edges := b.map.edges ++ [e] } }

/-- A configured mapping. One whose pattern cannot be read is reported and left out. -/
def addMapping (b : ProviderBuilder) (engine : PatternEngine) (kind : MatchKind) (source : String)
    (visibility : Visibility) (target : FileName) (targetVisibility : Visibility) :
    ProviderBuilder :=
  match Pattern.compile engine kind source with
  | .ok pattern => b.addEdge ⟨pattern, visibility, target, targetVisibility⟩
  | .error e => { b with log := b.log ++ [.unresolvablePattern source e.reason] }

/-- A mapping whose source tells by itself which kind of pattern it is. -/
def addMappingText (b : ProviderBuilder) (engine : PatternEngine) (source : String)
    (visibility : Visibility) (target : String) (targetVisibility : Visibility) :
    ProviderBuilder :=
  let (kind, source) := MatchKind.detect source
  b.addMapping engine kind source visibility (.ofText target) targetVisibility

/-- The edges of the built-in tables. -/
def builtinEdges : List BuiltinEdge :=
  BuiltinTable.headers.map fun row =>
    ⟨.ofText row.source, row.visibility, .ofText row.target, row.targetVisibility⟩

/-- The builder that knows the built-in tables. -/
def withBuiltins : ProviderBuilder :=
  let b : ProviderBuilder := { map := {
    builtin := builtinEdges
    alwaysPublic := BuiltinTable.publicHeaders.map .ofText } }
  BuiltinTable.symbols.foldl (fun b row => b.addSymbol row.source (.ofText row.target)) b

end ProviderBuilder

end IncludeAudit
