/-!
# Breadth-first search

A search in a finite universe of nodes. Each node it meets comes with the path by which it was met
first (`Trail`), and the nodes come in the order in which they were met, so that the paths never get
shorter.

The search keeps the nodes of the universe that it has not met. `claim` takes the successors of a
node out of them; `length_claim_le` bounds what it takes, which is why the search ends.
-/

namespace IncludeAudit

/-- A node and the nodes before it on the path by which it was met, nearest first. -/
structure Trail (α : Type) where
  node : α
  before : List α
  deriving DecidableEq, Repr

namespace Trail

variable {α : Type}

/-- The path of a node from which the search starts. -/
def start (a : α) : Trail α :=
  ⟨a, []⟩

/-- The path one step further. -/
def extend (t : Trail α) (a : α) : Trail α :=
  ⟨a, t.node :: t.before⟩

/-- The nodes of the path, from its beginning. -/
def path (t : Trail α) : List α :=
  (t.node :: t.before).reverse

/-- The number of steps of the path. -/
def hops (t : Trail α) : Nat :=
  t.before.length

end Trail

namespace Search

variable {α : Type} [DecidableEq α]

/-- The nodes other than a given one. -/
def without (a : α) (nodes : List α) : List α :=
  nodes.filter (· ≠ a)

theorem length_without_lt {a : α} {nodes : List α} (h : a ∈ nodes) :
    (without a nodes).length < nodes.length :=
  List.length_filter_lt_length_iff_exists.2 ⟨a, h, by simp⟩

/-- Takes the wanted nodes out of the unmet ones: the nodes taken, each once and in the order of the
wish, and the nodes left. -/
def claim : List α → List α → List α × List α
  | [], unmet => ([], unmet)
  | a :: wanted, unmet =>
    if a ∈ unmet then
      let (taken, left) := claim wanted (without a unmet)
      (a :: taken, left)
    else claim wanted unmet

/-- No more nodes are taken and left than were unmet. -/
theorem length_claim_le (wanted unmet : List α) :
    (claim wanted unmet).1.length + (claim wanted unmet).2.length ≤ unmet.length := by
  induction wanted generalizing unmet with
  | nil => simp [claim]
  | cons a wanted ih =>
    rw [claim]
    split
    · rename_i h
      have := ih (without a unmet)
      have := length_without_lt h
      simp only [List.length_cons]
      omega
    · exact ih unmet

/-- The paths met from the pending ones on, which are met already. -/
def run (next : α → List α) (pending : List (Trail α)) (unmet : List α) : List (Trail α) :=
  match pending with
  | [] => []
  | t :: pending =>
    let claimed := claim (next t.node) unmet
    t :: run next (pending ++ claimed.1.map t.extend) claimed.2
termination_by pending.length + unmet.length
decreasing_by
  have := length_claim_le (next t.node) unmet
  simp only [List.length_append, List.length_map, List.length_cons]
  omega

/-- The nodes that a node reaches, itself first, among the given nodes. -/
def fromNode (next : α → List α) (nodes : List α) (a : α) : List (Trail α) :=
  run next [.start a] (without a nodes)

/-- The nodes that the successors of a node reach among the given nodes. The node itself is among
them only if it reaches itself in one or more steps. -/
def fromSuccessors (next : α → List α) (nodes : List α) (a : α) : List (Trail α) :=
  let claimed := claim (next a) nodes
  run next (claimed.1.map (Trail.start a).extend) claimed.2

end Search

end IncludeAudit
