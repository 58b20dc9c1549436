import IncludeAudit.Directive
import IncludeAudit.Graph.Search
import IncludeAudit.Ordered.Set

/-!
# The include graph

The include directives of a compilation unit in the order of discovery. All questions about paths
are answered by breadth-first search, so cycles do no harm:

* `distance`: the fewest hops from one file to another;
* `closure`: the files included directly or through others;
* `findCycle`: a shortest path from a file back to itself.
-/

namespace IncludeAudit

/-- How many hops it takes from one file to another, if there is a path. -/
abbrev Reachability := FileName → FileName → Option Nat

/-- The include directives of a compilation unit. -/
structure IncludeGraph where
  directives : List IncludeDirective := []

namespace IncludeGraph

/-- Adds a directive. -/
def add (g : IncludeGraph) (d : IncludeDirective) : IncludeGraph :=
  ⟨g.directives ++ [d]⟩

/-- Every file that includes or is included, in the order of discovery. -/
def files (g : IncludeGraph) : OrderedSet FileName :=
  .ofList (g.directives.flatMap fun d => [d.includer, d.included])

/-- The directives in a file. -/
def directIncludes (g : IncludeGraph) (f : FileName) : List IncludeDirective :=
  g.directives.filter (·.includer == f)

/-- The files that a file includes directly. -/
def successors (g : IncludeGraph) (f : FileName) : List FileName :=
  (g.directIncludes f).map (·.included)

/-- True if one file includes the other directly. -/
def includesDirectly (g : IncludeGraph) (includer included : FileName) : Bool :=
  (g.successors includer).contains included

/-- The files that some file includes. -/
def included (g : IncludeGraph) : List FileName :=
  g.directives.map (·.included)

/-- The paths from a file to everything that it reaches, itself first. -/
def trails (g : IncludeGraph) (f : FileName) : List (Trail FileName) :=
  Search.fromNode g.successors g.included f

/-- The number of hops to each file that a file reaches, itself at none. -/
def distances (g : IncludeGraph) (f : FileName) : List (FileName × Nat) :=
  (g.trails f).map fun t => (t.node, t.hops)

/-- The number of hops from one file to another. -/
def distance (g : IncludeGraph) : Reachability :=
  fun source target => (g.distances source).lookup target

/-- True if there is a path of any length, of none too. -/
def reaches (g : IncludeGraph) (source target : FileName) : Bool :=
  (g.distance source target).isSome

/-- The files that a file includes directly or through others, nearest first. The file itself is
among them only if it lies on a cycle. -/
def closure (g : IncludeGraph) (f : FileName) : List FileName :=
  (Search.fromSuccessors g.successors g.included f).map (·.node)

/-- A path from a file back to itself, if there is one. -/
def findCycle (g : IncludeGraph) (f : FileName) : Option (List FileName) :=
  ((g.trails f).find? fun t => g.includesDirectly t.node f).map fun t => t.path ++ [f]

end IncludeGraph

/-- The distances from one file, computed once. -/
structure DistanceMap where
  origin : FileName
  distances : List (FileName × Nat)

namespace DistanceMap

/-- The distances from a file of the graph. -/
def ofGraph (g : IncludeGraph) (origin : FileName) : DistanceMap :=
  ⟨origin, g.distances origin⟩

/-- The number of hops, known only from the origin. -/
def distance (m : DistanceMap) : Reachability :=
  fun source target => if source = m.origin then m.distances.lookup target else none

end DistanceMap

end IncludeAudit
