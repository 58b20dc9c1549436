import IncludeAudit.Proofs.Decision.Justification
import IncludeAudit.Proofs.Decision.Requirements

/-!
# Which uses bear a removal

A present include that is removed may be a provider of some uses. Such a use of the definition gets
another file, or it is dropped for a reason that has nothing to do with the include
(`UseOutcome.Bears`), unless a pragma of the file bans the include: the ban takes the include away
from the use as well, although it is there (`DecisionContext.Starves`).

* `present_of_removed`: what is removed;
* `banned_of_offered_eq_nil`: a present provider that is not offered is banned;
* `bears_iff`: which uses bear the removal of an include.
-/

namespace IncludeAudit

/-- A file other than the given include serves the use, or the use needs none. -/
inductive UseStatus.Without (x : FileName) : UseStatus → Prop where
  | itself : Without x .selfProvided
  | associated (f : FileName) : Without x (.viaAssociated f)
  | included {f : FileName} (hf : f ≠ x) : Without x (.included f)
  | dropped {reason : IgnoreReason}
    (hr : reason = .builtin ∨ reason = .definedInFile ∨ reason = .backwardsInclude) :
    Without x (.ignored reason)

/-- The use bears the removal of the include: it does not lack a provider and, if it needs the
definition, it does without the include. -/
structure UseOutcome.Bears (o : UseOutcome) (x : FileName) : Prop where
  provided : o.status ≠ .ignored .noUsableProvider
  without : o.kind = .full → o.status.Without x

namespace DecisionContext

variable {ctx : DecisionContext} {r : FileRecord} {o : UseOutcome} {x : FileName}

/-- A pragma bans the include, and nothing else is offered to a use of the definition that is not
exempt. -/
structure Starves (ctx : DecisionContext) (r : FileRecord) (o : UseOutcome) (x : FileName) :
    Prop where
  full : o.kind = .full
  kept : ¬ ctx.Exempt r o
  banned : x ∈ r.pragmas.noInclude
  unoffered : ctx.offered r o = []

/-- A present provider of a use that gets no offer is banned. -/
theorem banned_of_offered_eq_nil (hp : ctx.policy.transitiveIncludesOnly = false)
    (hx : x ∈ ctx.candidateProviders r.file o) (hpresent : x ∈ r.present)
    (hnil : ctx.offered r o = []) : x ∈ r.pragmas.noInclude := by
  by_contra hallowed
  have hoffered : x ∈ ctx.offered r o :=
    (mem_offered hp).2 (mem_usable.2 ⟨hx, .inr ⟨.inr hpresent, hallowed⟩⟩)
  rw [hnil] at hoffered
  exact List.not_mem_nil hoffered

/-- A starved use does not end well. -/
theorem Ending.not_starves {status : UseStatus} (h : ctx.Ending r o status)
    (hwithout : status.Without x) : ¬ ctx.Starves r o x := by
  intro hstarves
  have hasks : ¬ ctx.AsksFile r o := fun hasks => hasks.1 hstarves.unoffered
  cases h with
  | exempt hexempt => exact hstarves.kept hexempt
  | unnamed => cases hwithout
  | refused _ _ hr =>
    cases hwithout with
    | dropped hd => rcases hr with rfl | rfl <;> simp at hd
  | itself h => exact hasks h
  | associated h => exact hasks h
  | included h => exact hasks h

/-- A use of the definition does without an include that is not chosen, unless it is not exempt and
nothing is offered to it. -/
theorem Ending.without_or {status : UseStatus} (h : ctx.Ending r o status)
    (hx : x ∉ Plan.chosen ctx r) :
    status.Without x ∨ ¬ ctx.Exempt r o ∧ ctx.offered r o = [] := by
  cases h with
  | exempt _ hr => exact .inl (.dropped hr)
  | unnamed hkept hnil => exact .inr ⟨hkept, hnil⟩
  | refused hkept hnil => exact .inr ⟨hkept, hnil⟩
  | itself => exact .inl .itself
  | associated _ f => exact .inl (.associated f)
  | included _ hf => exact .inl (.included fun he => hx (he ▸ hf))

end DecisionContext

namespace FileReport

variable {ctx : DecisionContext} {r : FileRecord} {x : FileName}

/-- Only present includes are removed. -/
theorem present_of_removed {p : Plan} (h : x ∈ includesOf (p.report ctx r).remove) :
    x ∈ r.present := by
  obtain ⟨l, hl, hx⟩ := List.mem_filterMap.1 h
  rcases List.mem_append.1 (Plan.remove_perm.mem_iff.1 hl) with hl | hl
  · obtain ⟨d, hd, rfl⟩ := List.mem_map.1 hl
    obtain rfl : d.included = x := Option.some.inj hx
    exact Plan.mem_present.2 (List.mem_map_of_mem (mem_splitFirst_iff.2 (.inr hd)))
  · obtain ⟨e, -, rfl⟩ := List.mem_map.1 hl
    cases hx

/-- A record that is resolving gets a report in which each use of which a removed include is a
provider bears the removal, unless a ban of the include starves the use. -/
theorem bears_iff (hp : ctx.policy.transitiveIncludesOnly = false) (hstate : r.state = .resolving) :
    ∃ report done, finalize ctx r = .ok (report, done) ∧
      ∀ x ∈ includesOf report.remove, x ∉ report.fullIncludes →
        ∀ o ∈ report.uses, x ∈ ctx.candidateProviders r.file o →
          (o.Bears x ↔ ¬ ctx.Starves r o x) := by
  refine ⟨_, _, Plan.finalize_of_resolving hstate, fun x hremoved hgone o ho hx => ?_⟩
  obtain ⟨u, -, slot, hd⟩ := forall₂_exists_left (Plan.forall₂_decided ctx r) o ho
  have hpresent : x ∈ r.present := present_of_removed hremoved
  have hchosen : x ∉ Plan.chosen ctx r := fun hc =>
    hgone (Plan.mem_fullIncludes.2 (OrderedSet.mem_union.2 (.inl hc)))
  constructor
  · intro hbears hstarves
    have hfull := hstarves.full
    exact (hd.ending_of_full hfull).not_starves (hbears.without hfull) hstarves
  · intro hkept
    have hwithout : o.kind = .full → o.status.Without x := by
      intro hfull
      refine ((hd.ending_of_full hfull).without_or hchosen).resolve_right fun ⟨hexempt, hnil⟩ => ?_
      have hbanned := DecisionContext.banned_of_offered_eq_nil hp hx hpresent hnil
      exact hkept ⟨hfull, hexempt, hbanned, hnil⟩
    refine ⟨fun hunprovided => ?_, hwithout⟩
    have hnot := hwithout (hd.full_of_noUsableProvider hunprovided)
    rw [hunprovided] at hnot
    cases hnot with
    | dropped hr => simp at hr

/-! ## An include that is banned -/

/-- `k.h` serves what `a.h` was included for. -/
theorem bears_shared_facade :
    (sharedFacade.policy.transitiveIncludesOnly = false ∧ sharedFacadeUser.state = .resolving) ∧
      ∃ report done, finalize sharedFacade sharedFacadeUser = .ok (report, done) ∧
        .quoted "a.h" ∈ includesOf report.remove ∧ .quoted "a.h" ∉ report.fullIncludes ∧
        ∃ o ∈ report.uses,
          .quoted "a.h" ∈ sharedFacade.candidateProviders sharedFacadeUser.file o ∧
            o.Bears (.quoted "a.h") := by
  obtain ⟨report, done, h, hbears⟩ := @bears_iff sharedFacade sharedFacadeUser rfl rfl
  have hreport : .quoted "a.h" ∈ includesOf report.remove ∧ .quoted "a.h" ∉ report.fullIncludes ∧
      ∃ o ∈ report.uses,
        .quoted "a.h" ∈ sharedFacade.candidateProviders sharedFacadeUser.file o := by
    rw [report_of_finalize h]
    decide +kernel
  obtain ⟨hremoved, hgone, o, ho, hx⟩ := hreport
  refine ⟨⟨rfl, rfl⟩, report, done, h, hremoved, hgone, o, ho, hx,
    (hbears _ hremoved hgone o ho hx).2 fun hstarves => ?_⟩
  have hallowed : .quoted "a.h" ∉ sharedFacadeUser.pragmas.noInclude := by decide
  exact hallowed hstarves.banned

/-- A source file that includes the header which defines a class, bans the header and uses the
class. -/
def banningUser : FileRecord where
  __ := facadeUser none
  includes := [⟨.quoted "f.cc", .quoted "s.h", .line 1, none⟩]
  resolved := (facadeUser none).resolved.map fun u =>
    { u with attribution := some ⟨none, .quoted "s.h", .nearestDefinition⟩ }
  pragmas := { noInclude := OrderedSet.empty.insert (.quoted "s.h") }

/-- The header goes, and the use is left without a provider. -/
theorem banned_header_removed :
    facades.policy = {} ∧ banningUser.state = .resolving ∧
      ∃ report done, finalize facades banningUser = .ok (report, done) ∧
        .quoted "s.h" ∈ includesOf report.remove ∧ .quoted "s.h" ∉ report.fullIncludes ∧
        ∃ o ∈ report.uses, .quoted "s.h" ∈ facades.candidateProviders banningUser.file o ∧
          o.status = .ignored .noUsableProvider ∧ ¬ o.Bears (.quoted "s.h") := by
  have hreport : ∃ report done, finalize facades banningUser = .ok (report, done) ∧
      .quoted "s.h" ∈ includesOf report.remove ∧ .quoted "s.h" ∉ report.fullIncludes ∧
      ∃ o ∈ report.uses, .quoted "s.h" ∈ facades.candidateProviders banningUser.file o ∧
        o.status = .ignored .noUsableProvider := by
    refine ⟨_, _, rfl, ?_⟩
    decide +kernel
  obtain ⟨report, done, h, hremoved, hgone, o, ho, hx, hstatus⟩ := hreport
  exact ⟨rfl, rfl, report, done, h, hremoved, hgone, o, ho, hx, hstatus,
    fun hbears => hbears.provided hstatus⟩

end FileReport

end IncludeAudit
