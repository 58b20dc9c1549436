import IncludeAudit.Use.Attribution
import Mathlib.Data.List.MinMax
import Mathlib.Data.Prod.Lex

/-!
# The choice among candidates

The rules for attributing a use are tried one after the other, each with a search for the nearest
candidate that it finds. What comes of it is one order: by the rule that finds a candidate first, by
its distance and by the order of discovery (`standing`). The chosen candidate is the least one.

* `le_iff`: candidates of one rule are ordered by their places;
* `nearest?_eq_argmin`: the nearest candidate is a least one;
* `least_of_nearest?`: it is the least of all if the rules before find nothing;
* `select_spec`, `select_eq_none`: what is chosen, and when nothing is.
-/

namespace IncludeAudit

/-- How early a rule is tried. The file of a using-declaration needs no candidates. -/
def AttributionRule.rank : AttributionRule → ℕ
  | usingDeclaration => 0
  | instantiationDeclaration => 1
  | intendsToProvide => 2
  | nearestDefinition => 3
  | nearestDeclaration => 4

/-- The first rule that finds a declaration. An `extern template` is found as such only if some
candidate is an explicit instantiation definition. -/
def Declaration.ruleAmong (instantiated : Bool) (d : Declaration) : AttributionRule :=
  if instantiated && d.isInstantiation .declaration then .instantiationDeclaration
  else if d.intendsToProvide then .intendsToProvide
  else if d.isDefinition then .nearestDefinition
  else .nearestDeclaration

theorem Declaration.ruleAmong_eq_instantiationDeclaration {instantiated : Bool} {d : Declaration} :
    d.ruleAmong instantiated = .instantiationDeclaration ↔
      instantiated = true ∧ d.isInstantiation .declaration = true := by
  rw [ruleAmong, ← Bool.and_eq_true]
  split_ifs with hform <;> simp [hform]

namespace Candidate

variable {a b c chosen : Candidate} {cs : List Candidate} {p : Candidate → Bool}
  {rule : AttributionRule}

/-! ## The nearest candidate -/

/-- The distance of what is so many hops away. What is out of reach is farther than all else. -/
def remoteness : Option Nat → WithTop ℕ
  | some n => WithTop.some n
  | none => ⊤

/-- The distance of a candidate and then its place in the order of discovery. -/
def place (c : Candidate) : WithTop ℕ ×ₗ ℕ :=
  toLex (remoteness c.distance, c.id)

theorem le_iff : a.le b = true ↔ a.place ≤ b.place := by
  rw [place, place, Prod.Lex.toLex_le_toLex, le]
  cases a.distance <;> cases b.distance <;> simp [remoteness]

/-- One candidate takes the place of another if it stands before it. -/
theorem nearest?_eq_argmin (p : Candidate → Bool) (cs : List Candidate) :
    nearest? p cs = (cs.filter p).argmin place := by
  unfold nearest? List.argmin
  congr 1
  funext best c
  cases best with
  | none => rfl
  | some b =>
    by_cases hle : b.le c = true
    · have hnot : ¬ c.place < b.place := not_lt.2 (le_iff.1 hle)
      simp only [List.argAux, if_pos hle, if_neg hnot]
    · have hlt : c.place < b.place := not_le.1 (mt le_iff.2 hle)
      simp only [List.argAux, if_neg hle, if_pos hlt]

theorem nearest?_eq_some (h : nearest? p cs = some c) :
    (c ∈ cs ∧ p c = true) ∧ ∀ e ∈ cs, p e = true → c.place ≤ e.place := by
  rw [nearest?_eq_argmin] at h
  exact ⟨List.mem_filter.1 (List.argmin_mem h),
    fun e he hp => List.le_of_mem_argmin (List.mem_filter.2 ⟨he, hp⟩) h⟩

theorem nearest?_eq_none : nearest? p cs = none ↔ ∀ e ∈ cs, p e = false := by
  rw [nearest?_eq_argmin, List.argmin_eq_none, List.filter_eq_nil_iff]
  simp

/-! ## The rules -/

/-- The first rule that finds a candidate. -/
def ruleOf (cs : List Candidate) (c : Candidate) : AttributionRule :=
  c.declaration.ruleAmong (cs.any (isInstantiation .definition))

theorem ruleOf_eq (cs : List Candidate) (c : Candidate) :
    ruleOf cs c =
      if cs.any (isInstantiation .definition) && c.isInstantiation .declaration then
        .instantiationDeclaration
      else if c.declaration.intendsToProvide then .intendsToProvide
      else if c.declaration.isDefinition then .nearestDefinition
      else .nearestDeclaration :=
  rfl

/-- By what a candidate is chosen: its rule, its distance and its place in the order of discovery. -/
def standing (cs : List Candidate) (c : Candidate) : ℕ ×ₗ WithTop ℕ ×ₗ ℕ :=
  toLex ((ruleOf cs c).rank, c.place)

/-- A candidate that no other one is to be preferred to. -/
structure IsLeast (cs : List Candidate) (c : Candidate) : Prop where
  mem : c ∈ cs
  le : ∀ e ∈ cs, standing cs c ≤ standing cs e

/-- The nearest of the candidates that a rule finds is the least of all if the others are found by
later rules. -/
theorem least_of_nearest? {r : AttributionRule} (h : nearest? p cs = some c)
    (hfound : ∀ e ∈ cs, p e = true → ruleOf cs e = r)
    (hlater : ∀ e ∈ cs, p e = false → r.rank < (ruleOf cs e).rank) :
    IsLeast cs c ∧ ruleOf cs c = r := by
  obtain ⟨⟨hc, hpc⟩, hleast⟩ := nearest?_eq_some h
  have hrule := hfound c hc hpc
  refine ⟨⟨hc, fun e he => ?_⟩, hrule⟩
  rw [standing, standing, Prod.Lex.toLex_le_toLex, hrule]
  cases hpe : p e with
  | false => exact .inl (hlater e he hpe)
  | true => exact .inr ⟨by rw [hfound e he hpe], hleast e he hpe⟩

/-- The search for an `extern template`, which is made only if it counts. -/
theorem externs_eq (instantiated : Bool) (p : Candidate → Bool) (cs : List Candidate) :
    (if instantiated = true then nearest? p cs else none) =
      nearest? (fun e => instantiated && p e) cs := by
  cases instantiated with
  | true => simp only [Bool.true_and, if_true]
  | false => exact (nearest?_eq_none.2 fun _ _ => Bool.false_and _).symm

/-- The cases are the rules. A rule is tried once those before it have found nothing. -/
theorem select_spec (h : select cs = some (chosen, rule)) :
    IsLeast cs chosen ∧ ruleOf cs chosen = rule := by
  simp only [select, externs_eq, Option.or_eq_some_iff, Option.map_eq_some_iff,
    Option.map_eq_none_iff, Prod.mk.injEq] at h
  rcases h with ⟨c, hc, rfl, rfl⟩ | ⟨hform, ⟨c, hc, rfl, rfl⟩ | ⟨hintends, ⟨c, hc, rfl, rfl⟩ |
    ⟨hdefinition, c, hc, rfl, rfl⟩⟩⟩
  · refine least_of_nearest? hc (fun e _ hp => if_pos hp) fun e _ hp => ?_
    rw [ruleOf_eq, hp, if_neg Bool.false_ne_true]
    split_ifs <;> decide
  · have hnot := nearest?_eq_none.1 hform
    refine least_of_nearest? hc (fun e he hp => ?_) fun e he hp => ?_
    · rw [ruleOf_eq, hnot e he, hp]
      rfl
    · rw [ruleOf_eq, hnot e he, hp, if_neg Bool.false_ne_true, if_neg Bool.false_ne_true]
      split_ifs <;> decide
  · have hnot := nearest?_eq_none.1 hform
    have hnot' := nearest?_eq_none.1 hintends
    refine least_of_nearest? hc (fun e he hp => ?_) fun e he hp => ?_
    · rw [ruleOf_eq, hnot e he, hnot' e he, hp]
      rfl
    · rw [ruleOf_eq, hnot e he, hnot' e he, hp]
      decide
  · have hnot := nearest?_eq_none.1 hform
    have hnot' := nearest?_eq_none.1 hintends
    have hnot'' := nearest?_eq_none.1 hdefinition
    refine least_of_nearest? hc (fun e he _ => ?_) fun e _ hp => absurd hp nofun
    rw [ruleOf_eq, hnot e he, hnot' e he, hnot'' e he]
    rfl

/-- The last rule finds any candidate. -/
theorem select_eq_none : select cs = none ↔ cs = [] := by
  constructor
  · intro h
    simp only [select, Option.or_eq_none_iff, Option.map_eq_none_iff] at h
    exact List.eq_nil_iff_forall_not_mem.2 fun e he =>
      absurd (nearest?_eq_none.1 h.2.2.2 e he) nofun
  · rintro rfl
    rfl

end Candidate

end IncludeAudit
