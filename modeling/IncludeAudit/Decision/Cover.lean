import IncludeAudit.FileName.Basic
import IncludeAudit.Ordered.Set

/-!
# Choosing includes

Each need is a list of files, best first, any one of which satisfies it. A need that the file itself
or an include of an associated header satisfies asks for nothing more. Of the others, those with a
candidate among the present includes get one of these, one that is chosen already if there is such.
The rest is a greedy cover: as long as a need is open, the file that is a candidate of most open
needs is chosen. In the end each choice is given up for which all its needs have another chosen
candidate.

* `choose`: the chosen includes and one assignment for each need;
* `length_openNeeds_settleAll_lt`: each choice of the greedy cover settles a need.
-/

namespace IncludeAudit

/-- How a need is satisfied. -/
inductive Assignment where
  /-- By the file itself. -/
  | itself
  /-- By an include of an associated header. -/
  | associated (file : FileName)
  | chosen (file : FileName)
  deriving DecidableEq, Repr

/-- A need and how it is satisfied, if it is. -/
structure Slot where
  need : List FileName
  assignment : Option Assignment := none
  deriving DecidableEq, Repr

/-- What is known of the file whose includes are chosen. -/
structure CoverSetting where
  referencing : FileName
  present : OrderedSet FileName
  associatedIncludes : OrderedSet FileName

/-- The chosen includes and the assignments, one for each need. -/
structure Cover where
  desired : OrderedSet FileName
  assignments : List (Option Assignment)

namespace Cover

/-! ## Needs without a choice, and present includes -/

/-- The slot of a need before anything is chosen. -/
def initial (s : CoverSetting) (need : List FileName) : Slot :=
  if need.contains s.referencing then ⟨need, some .itself⟩
  else ⟨need, (need.find? s.associatedIncludes.contains).map .associated⟩

/-- The present candidate of a need that is taken: one that is chosen already, else the first. -/
def presentPick? (s : CoverSetting) (desired : OrderedSet FileName) (need : List FileName) :
    Option FileName :=
  let candidates := need.filter s.present.contains
  (candidates.find? desired.contains).or candidates.head?

/-- Gives each open need a present candidate, if it has one. -/
def takePresent (s : CoverSetting) :
    List Slot → OrderedSet FileName → List Slot × OrderedSet FileName
  | [], desired => ([], desired)
  | slot :: slots, desired =>
    match slot.assignment, presentPick? s desired slot.need with
    | none, some f =>
      let (slots, desired) := takePresent s slots (desired.insert f)
      (⟨slot.need, some (.chosen f)⟩ :: slots, desired)
    | _, _ =>
      let (slots, desired) := takePresent s slots desired
      (slot :: slots, desired)

/-! ## The greedy cover -/

/-- Gives an open need its first chosen candidate, if it has one. -/
def settle (desired : OrderedSet FileName) (slot : Slot) : Slot :=
  match slot.assignment with
  | some _ => slot
  | none => ⟨slot.need, (slot.need.find? desired.contains).map .chosen⟩

/-- Settles each slot. -/
def settleAll (desired : OrderedSet FileName) (slots : List Slot) : List Slot :=
  slots.map (settle desired)

/-- The needs that are still open. -/
def openNeeds (slots : List Slot) : List (List FileName) :=
  (slots.filter (·.assignment.isNone)).map (·.need)

/-- The number of open needs that have a file as a candidate. -/
def coverage (needs : List (List FileName)) (f : FileName) : Nat :=
  needs.countP (·.contains f)

/-- The first element with the greatest weight. -/
def heaviest? {α : Type} (weight : α → Nat) : List α → Option α
  | [] => none
  | a :: as =>
    match heaviest? weight as with
    | none => some a
    | some b => if weight a < weight b then some b else some a

/-- The candidate of most open needs, the first met of equally good ones. -/
def best? (needs : List (List FileName)) : Option FileName :=
  heaviest? (coverage needs) needs.flatten.eraseDups

theorem heaviest?_mem {α : Type} {weight : α → Nat} {as : List α} {a : α}
    (h : heaviest? weight as = some a) : a ∈ as := by
  induction as generalizing a with
  | nil => simp [heaviest?] at h
  | cons b as ih =>
    rw [heaviest?] at h
    split at h
    · simp_all
    · rename_i c hc
      split at h
      · cases Option.some.inj h
        exact List.mem_cons_of_mem _ (ih hc)
      · simp_all

theorem best?_mem {needs : List (List FileName)} {f : FileName} (h : best? needs = some f) :
    ∃ need ∈ needs, f ∈ need :=
  List.mem_flatten.1 (List.mem_eraseDups.1 (heaviest?_mem h))

theorem openNeeds_cons_of_some {slot : Slot} {a : Assignment} (h : slot.assignment = some a)
    (slots : List Slot) : openNeeds (slot :: slots) = openNeeds slots := by
  simp [openNeeds, h]

theorem openNeeds_cons_of_none {slot : Slot} (h : slot.assignment = none) (slots : List Slot) :
    openNeeds (slot :: slots) = slot.need :: openNeeds slots := by
  simp [openNeeds, h]

theorem settleAll_cons (desired : OrderedSet FileName) (slot : Slot) (slots : List Slot) :
    settleAll desired (slot :: slots) = settle desired slot :: settleAll desired slots :=
  rfl

theorem length_openNeeds_settleAll_le (desired : OrderedSet FileName) (slots : List Slot) :
    (openNeeds (settleAll desired slots)).length ≤ (openNeeds slots).length := by
  induction slots with
  | nil => exact Nat.le_refl _
  | cons slot slots ih =>
    rw [settleAll_cons]
    cases h : slot.assignment with
    | some a =>
      have hs : settle desired slot = slot := by simp [settle, h]
      rwa [hs, openNeeds_cons_of_some h, openNeeds_cons_of_some h]
    | none =>
      rw [openNeeds_cons_of_none h]
      cases h' : (settle desired slot).assignment with
      | some a =>
        rw [openNeeds_cons_of_some h']
        exact Nat.le_succ_of_le ih
      | none =>
        rw [openNeeds_cons_of_none h']
        exact Nat.succ_le_succ ih

/-- A choice that is a candidate of an open need leaves fewer open needs. -/
theorem length_openNeeds_settleAll_lt {desired : OrderedSet FileName} {slots : List Slot}
    {f : FileName} (hf : f ∈ desired) (h : ∃ need ∈ openNeeds slots, f ∈ need) :
    (openNeeds (settleAll desired slots)).length < (openNeeds slots).length := by
  induction slots with
  | nil => simp [openNeeds] at h
  | cons slot slots ih =>
    rw [settleAll_cons]
    cases ha : slot.assignment with
    | some a =>
      have hs : settle desired slot = slot := by simp [settle, ha]
      rw [openNeeds_cons_of_some ha] at h
      rw [hs, openNeeds_cons_of_some ha, openNeeds_cons_of_some ha]
      exact ih h
    | none =>
      rw [openNeeds_cons_of_none ha] at h
      rw [openNeeds_cons_of_none ha]
      cases h' : (settle desired slot).assignment with
      | some a =>
        rw [openNeeds_cons_of_some h']
        exact Nat.lt_succ_of_le (length_openNeeds_settleAll_le desired slots)
      | none =>
        rw [openNeeds_cons_of_none h']
        obtain ⟨need, hmem, hfn⟩ := h
        rcases List.mem_cons.1 hmem with rfl | hmem
        · simp only [settle, ha, Option.map_eq_none_iff, List.find?_eq_none] at h'
          exact absurd (OrderedSet.contains_eq_true.2 hf) (h' f hfn)
        · exact Nat.succ_lt_succ (ih ⟨need, hmem, hfn⟩)

/-- Chooses files until no open need has a candidate. -/
def greedy (slots : List Slot) (desired : OrderedSet FileName) : List Slot × OrderedSet FileName :=
  match _found : best? (openNeeds slots) with
  | none => (slots, desired)
  | some f => greedy (settleAll (desired.insert f) slots) (desired.insert f)
termination_by (openNeeds slots).length
decreasing_by
  exact length_openNeeds_settleAll_lt (OrderedSet.mem_insert.2 (Or.inr rfl)) (best?_mem _found)

/-! ## Giving up choices -/

/-- The assignment of a slot after a file is given up: if the slot had that file, its first other
chosen candidate, if there is one. -/
def reassign (desired : OrderedSet FileName) (f : FileName) (slot : Slot) : Option Assignment :=
  if slot.assignment = some (.chosen f) then
    (slot.need.find? fun c => c ≠ f && desired.contains c).map .chosen
  else slot.assignment

/-- True if the slot does without a file: it has another, or there is another for it. -/
def canSpare (desired : OrderedSet FileName) (f : FileName) (slot : Slot) : Bool :=
  slot.assignment != some (.chosen f) || (reassign desired f slot).isSome

/-- Gives up a file, if every slot does without it. -/
def giveUp (f : FileName) (state : List Slot × OrderedSet FileName) :
    List Slot × OrderedSet FileName :=
  let (slots, desired) := state
  if slots.all (canSpare desired f) then
    (slots.map fun slot => ⟨slot.need, reassign desired f slot⟩, desired.erase f)
  else state

/-- Tries to give up each chosen file, the last chosen first. -/
def prune (slots : List Slot) (desired : OrderedSet FileName) : List Slot × OrderedSet FileName :=
  desired.toList.foldr giveUp (slots, desired)

/-- Chooses includes for the needs of a file. -/
def choose (s : CoverSetting) (needs : List (List FileName)) : Cover :=
  let (slots, desired) := takePresent s (needs.map (initial s)) {}
  let (slots, desired) := greedy (settleAll desired slots) desired
  let (slots, desired) := prune slots desired
  ⟨desired, slots.map (·.assignment)⟩

end Cover

end IncludeAudit
