import IncludeAudit.Graph.Search
import IncludeAudit.Provider.Map
import IncludeAudit.Provider.Overlay

/-!
# Resolving providers

A `ProviderView` joins a provider map with the facts of one compilation unit. The mappings of a file
lie in layers, and the first layer that has any decides where a private file leads: exact mappings
of the configuration, its patterns, the private pragma, the built-in tables, and the conventions.

* `resolve`: the file at the end of the chain that starts at a file. A step leads to a public target
  if the layer has one, else to its first target; the chain ends at a public file, at a file without
  mappings, or before it would come back to one of its files.
* `publicCandidates`: all files that may be included in place of a file, by search through the
  targets of all layers and through re-exports.

Mappings of public files never lead away from them: they only name further candidates.
-/

namespace IncludeAudit

/-- A source of mappings, in the order of precedence. -/
inductive Layer where
  | userExact
  | userPattern
  | pragma
  | builtin
  | convention
  deriving DecidableEq, Repr

/-- The end of a chain of mappings. -/
structure Resolved where
  file : FileName
  /-- The layer of the first step, if there is a step. -/
  layer : Option Layer
  isPublic : Bool
  deriving DecidableEq, Repr

/-- A provider map with the facts of one compilation unit. -/
structure ProviderView where
  map : ProviderMap
  overlay : Overlay

namespace ProviderView

/-- True of a file that must not be included directly. The sources of this knowledge have the same
precedence as the layers of mappings. -/
def isPrivate (v : ProviderView) (f : FileName) : Bool :=
  if v.map.alwaysPublic.contains f then false
  else
    match (v.map.declared.find? f).or (v.map.patternVisibility f) with
    | some visibility => visibility == .priv
    | none =>
      (v.overlay.privatePragma? f).isSome || v.overlay.isPrivateByConvention f
        || v.map.builtinVisibility f == some .priv

/-- The targets of a file in every layer. -/
def layers (v : ProviderView) (f : FileName) : List (Layer × List Target) :=
  [ (.userExact, v.map.exactTargets f),
    (.userPattern, v.map.patternTargets f),
    (.pragma, (v.overlay.privatePragma? f).join.toList.map fun file => ⟨file, .pub⟩),
    (.builtin, v.map.builtinTargets f),
    (.convention, (v.overlay.conventionTargets f).map fun file => ⟨file, .pub⟩) ]

/-- The first layer with targets, and its targets. -/
def firstLayer (v : ProviderView) (f : FileName) : Option (Layer × List Target) :=
  (v.layers f).find? fun l => !l.2.isEmpty

/-- The targets of a file in all layers. -/
def allTargets (v : ProviderView) (f : FileName) : List FileName :=
  (v.layers f).flatMap fun l => l.2.map (·.file)

/-- Every file to which a mapping or a re-export can lead. -/
def providers (v : ProviderView) : List FileName :=
  v.map.targets ++ v.overlay.providers

/-! ## Chains -/

/-- The target that is chosen among those of a layer: the first public one, else the first. -/
def preferred? (v : ProviderView) (targets : List Target) : Option FileName :=
  let isPublic (t : Target) := t.visibility == .pub && !v.isPrivate t.file
  ((targets.find? isPublic).or targets.head?).map (·.file)

/-- Follows the chain from a file. `layer` is that of the first step, if one was made, and `unmet`
holds the providers that are not on the chain. -/
def resolveFrom (v : ProviderView) (layer : Option Layer) (f : FileName) (unmet : List FileName) :
    Resolved :=
  if v.isPrivate f then
    match v.firstLayer f with
    | none => ⟨f, layer, false⟩
    | some (found, targets) =>
      match v.preferred? targets with
      | none => ⟨f, layer.or (some found), false⟩
      | some next =>
        if next ∈ unmet then
          v.resolveFrom (layer.or (some found)) next (Search.without next unmet)
        else ⟨f, layer.or (some found), false⟩
  else ⟨f, layer, true⟩
termination_by unmet.length
decreasing_by exact Search.length_without_lt ‹_›

/-- The file at the end of the chain that starts at a file. -/
def resolve (v : ProviderView) (f : FileName) : Resolved :=
  v.resolveFrom none f (Search.without f v.providers)

/-- The file that the includer should include in place of a file: the file itself for its friends.
-/
def resolveFor (v : ProviderView) (f includer : FileName) : Resolved :=
  if v.overlay.isFriend includer f then ⟨f, none, true⟩ else v.resolve f

/-! ## Candidates -/

/-- The files to which a file leads in one step, over all layers and re-exports. -/
def successors (v : ProviderView) (f : FileName) : List FileName :=
  v.allTargets f ++ v.overlay.exportersOf f

/-- The files to which a file leads, itself first, nearest first. -/
def closure (v : ProviderView) (f : FileName) : List FileName :=
  (Search.fromNode v.successors v.providers f).map (·.node)

/-- True of the files that the includer may include. -/
def isUsable (v : ProviderView) (includer f : FileName) : Bool :=
  !v.isPrivate f || v.overlay.isFriend includer f

/-- The files that may be included in place of a file: the file at the end of its chain, then the
other usable files of its closure. The end of the chain is left out if it is not usable and there is
another candidate. -/
def publicCandidates (v : ProviderView) (f includer : FileName) : List FileName :=
  let first := (v.resolveFor f includer).file
  let others := (v.closure f).filter fun c => c ≠ f && v.isUsable includer c && c ≠ first
  if others.isEmpty || v.isUsable includer first then first :: others else others

/-- The headers of a symbol that is known by name. -/
def symbolProviders (v : ProviderView) (symbol : String) : List FileName :=
  v.map.symbolProviders symbol

end ProviderView

end IncludeAudit
