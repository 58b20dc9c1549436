import IncludeAudit.Graph.IncludeGraph
import IncludeAudit.Ordered.Map

/-!
# Closures computed once

A cache of the closures of one graph. Each query gives its answer and the cache after it.
-/

namespace IncludeAudit

/-- A graph and the closures computed so far. -/
structure ClosureCache where
  graph : IncludeGraph
  closures : OrderedMap FileName (List FileName) := {}

namespace ClosureCache

/-- The closure of a file, computed if it is asked for the first time. -/
def closure (c : ClosureCache) (f : FileName) : List FileName × ClosureCache :=
  match c.closures.find? f with
  | some files => (files, c)
  | none =>
    let files := c.graph.closure f
    (files, { c with closures := c.closures.set f files })

/-- True if there is a path of any length. A file reaches itself without a look at its closure. -/
def reaches (c : ClosureCache) (source target : FileName) : Bool × ClosureCache :=
  if source = target then (true, c)
  else
    let (files, c) := c.closure source
    (files.contains target, c)

/-- The number of closures computed so far. -/
def size (c : ClosureCache) : Nat :=
  c.closures.size

end ClosureCache

end IncludeAudit
