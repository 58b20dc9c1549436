import IncludeAudit.Use.Classification
import Mathlib.Data.List.TakeWhile

/-!
# What the classification of a use tells

The first rule that applies decides, so a use that a declaration satisfies passed all rules that
stand before the first one which may say so (`not_applies_of_forwardDeclarable`). In particular its
symbol can be declared (`declarable_of_forwardDeclarable`).
-/

namespace IncludeAudit

namespace Classification

variable {policy : Policy} {oracle : CompletenessOracle} {u : Use} {s : Symbol} {v : Verdict}

/-- The rules that stand before the first which asks for a declaration. -/
def strictRules : List Rule :=
  rules.takeWhile (·.conclusion != .needs .forwardDeclarable)

/-- The rule that decides on a use. -/
theorem exists_rule (h : classify policy oracle u s = some v) :
    ∃ rule, rules.find? (·.applies ⟨policy, oracle, u, s⟩) = some rule ∧
      rule.conclusion = .needs v.kind := by
  unfold classify at h
  split at h
  · rename_i hfound
    cases h
    exact ⟨_, hfound, rfl⟩
  · cases h

/-- No strict rule decides on such a use, so another one does, and the strict rules stand before
it. -/
theorem not_applies_of_forwardDeclarable (h : classify policy oracle u s = some v)
    (hv : v.kind = .forwardDeclarable) :
    ∀ rule ∈ strictRules, rule.applies ⟨policy, oracle, u, s⟩ = false := by
  obtain ⟨rule, hfound, hconclusion⟩ := exists_rule h
  rw [hv] at hconclusion
  have hsplit : rules = strictRules ++ rules.dropWhile (·.conclusion != .needs .forwardDeclarable) :=
    List.takeWhile_append_dropWhile.symm
  rw [hsplit, List.find?_append] at hfound
  have hnone : strictRules.find? (·.applies ⟨policy, oracle, u, s⟩) = none := by
    cases hstrict : strictRules.find? (·.applies ⟨policy, oracle, u, s⟩) with
    | none => rfl
    | some first =>
      have hpassed := List.mem_takeWhile_imp (List.mem_of_find?_eq_some hstrict)
      rw [hstrict] at hfound
      cases hfound
      simp [hconclusion] at hpassed
  simpa using List.find?_eq_none.1 hnone

/-- A declaration only ever satisfies a use of a record outside the system namespaces. -/
theorem declarable_of_forwardDeclarable (h : classify policy oracle u s = some v)
    (hv : v.kind = .forwardDeclarable) :
    s.key.kind.isForwardDeclarable = true ∧ policy.systemNamespaces.any s.key.isIn = false := by
  have hpassed := not_applies_of_forwardDeclarable h hv
  have hsystem := hpassed ⟨"system_namespace", inSystemNamespace, .needs .full⟩
    (by simp [strictRules, rules])
  have hkind := hpassed
    ⟨"not_forward_declarable", fun c => !c.symbol.key.kind.isForwardDeclarable, .needs .full⟩
    (by simp [strictRules, rules])
  exact ⟨by simpa using hkind, (Bool.or_eq_false_iff.1 hsystem).2⟩

end Classification

end IncludeAudit
