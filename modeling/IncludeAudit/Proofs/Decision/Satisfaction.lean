import IncludeAudit.Proofs.Decision.Providers

/-!
# Which uses are satisfied

A use that is attributed to a file is satisfied by a file, along with a full use of its symbol, by a
declaration, or not at all. What happens depends on how much it needs:

* `satisfied_iff_of_full`: a use of the definition is satisfied unless it is dropped or no provider
  is offered;
* `satisfied_of_forwardDeclarable`: a use that a declaration satisfies is satisfied otherwise only
  with a full use or a visible declaration, unless it is dropped;
* `fullIgnored?_eq_none`, `forwardIgnored?_eq_some`: which uses are dropped.
-/

namespace IncludeAudit

/-- The use is satisfied without a declaration in the file: by a file, or because another use of the
symbol needs its definition. -/
inductive UseStatus.Satisfied : UseStatus → Prop where
  | itself : Satisfied .selfProvided
  | associated (f : FileName) : Satisfied (.viaAssociated f)
  | included (f : FileName) : Satisfied (.included f)
  | covered : Satisfied (.ignored .coveredByFullUse)

theorem UseStatus.not_satisfied_ignored {reason : IgnoreReason} (h : reason ≠ .coveredByFullUse) :
    ¬ (UseStatus.ignored reason).Satisfied := by
  rintro ⟨⟩
  exact h rfl

namespace DecisionContext

variable {ctx : DecisionContext} {r : FileRecord} {u : ResolvedUse} {a : Attribution} {s : Symbol}
  {attributed : FileName} {reason : IgnoreReason}

/-! ## Courses of attributed uses -/

/-- A use of the definition is dropped, or it takes the course of the file to which it is
attributed. -/
theorem course_of_full (ha : u.attribution = some a) (hk : (ctx.triage r u).kind = .full) :
    (∃ reason, ctx.fullIgnored? r a.file u = some reason ∧
        (ctx.triage r u).course = .settled (.ignored reason)) ∨
      ctx.fullIgnored? r a.file u = none ∧
        (ctx.triage r u).course = ctx.providerCourse r a.file := by
  revert hk
  refine triage_cases (P := fun d => d.kind = .full →
    (∃ reason, ctx.fullIgnored? r a.file u = some reason ∧
        d.course = .settled (.ignored reason)) ∨
      ctx.fullIgnored? r a.file u = none ∧ d.course = ctx.providerCourse r a.file) ?_ ?_ ?_ ?_ ?_
  · intro hnone
    rw [hnone] at ha
    cases ha
  · intro _ _ _ hk
    cases hk
  · intro _ _ _ _ hk
    cases hk
  · intro b reason hb _ _ hd _
    obtain rfl : a = b := Option.some.inj (ha.symm.trans hb)
    exact .inl ⟨reason, hd, rfl⟩
  · intro b hb _ _ hd _
    obtain rfl : a = b := Option.some.inj (ha.symm.trans hb)
    exact .inr ⟨hd, rfl⟩

/-- A use that a declaration satisfies is dropped, or it waits for one. -/
theorem course_of_forwardDeclarable (ha : u.attribution = some a)
    (hk : (ctx.triage r u).kind = .forwardDeclarable) :
    (∃ reason, ctx.forwardIgnored? r u = some reason) ∨ (ctx.triage r u).course = .forward := by
  revert hk
  refine triage_cases (P := fun d => d.kind = .forwardDeclarable →
    (∃ reason, ctx.forwardIgnored? r u = some reason) ∨ d.course = .forward) ?_ ?_ ?_ ?_ ?_
  · intro hnone
    rw [hnone] at ha
    cases ha
  · intro _ _ _ _
    simp only [draft, forwardCourse]
    split
    · rename_i reason hd
      exact .inl ⟨reason, hd⟩
    · exact .inr rfl
  · exact fun _ _ _ _ _ => .inr rfl
  · intro _ _ _ _ _ _ hk
    cases hk
  · intro _ _ _ _ _ hk
    cases hk

/-- A file without usable candidates has its uses dropped. -/
theorem providerCourse_cases (ctx : DecisionContext) (r : FileRecord) (attributed : FileName) :
    usable r (ctx.allowedCandidates r attributed) = [] ∧
        (∃ reason, (reason = .outsideTransitiveClosure ∨ reason = .noUsableProvider) ∧
          ctx.providerCourse r attributed = .settled (.ignored reason)) ∨
      usable r (ctx.allowedCandidates r attributed) ≠ [] ∧ ctx.providerCourse r attributed =
        .need (ctx.withTransitive r (usable r (ctx.allowedCandidates r attributed))) := by
  unfold providerCourse
  dsimp only
  split
  · rename_i hallowed
    rw [List.isEmpty_iff.1 hallowed]
    exact .inl ⟨rfl, .outsideTransitiveClosure, .inl rfl, rfl⟩
  · split
    · rename_i hcandidates
      exact .inl ⟨List.isEmpty_iff.1 hcandidates, .noUsableProvider, .inr rfl, rfl⟩
    · rename_i hcandidates
      exact .inr ⟨fun hnil => hcandidates (List.isEmpty_iff.2 hnil), rfl⟩

theorem withTransitive_ne_nil {candidates : List FileName} (h : candidates ≠ []) :
    ctx.withTransitive r candidates ≠ [] := by
  unfold withTransitive
  split
  · exact List.append_ne_nil_of_right_ne_nil _ h
  · exact h

/-! ## Dropped uses -/

theorem fullIgnored?_ne_coveredByFullUse :
    ctx.fullIgnored? r attributed u ≠ some .coveredByFullUse := by
  unfold fullIgnored?
  split
  · simp
  · split
    · simp
    · split
      · simp
      · split <;> simp

/-- A use of the definition is dropped at once if its symbol is a builtin, if the file defines the
symbol, or if the file to which it is attributed includes the file or is the file. -/
theorem fullIgnored?_eq_none (hs : ctx.table.find? u.use.symbol = some s) :
    ctx.fullIgnored? r attributed u = none ↔ s.traits.isBuiltin = false ∧
      (∀ d ∈ ctx.declarationsIn r.file u.use.symbol, d.isDefinition = false) ∧
      ctx.graph.reaches attributed r.file = false := by
  have hself : attributed = r.file → ctx.graph.reaches attributed r.file = true := by
    rintro rfl
    exact IncludeGraph.reaches_self _ _
  simp only [fullIgnored?, hs, SymbolTable.key_of_find? hs]
  cases s.traits.isBuiltin with
  | true => simp
  | false =>
    cases hreach : ctx.graph.reaches attributed r.file with
    | true =>
      refine iff_of_false ?_ (by simp)
      simp only [Bool.false_eq_true, if_false, if_true]
      split <;> simp
    | false =>
      have hother : attributed ≠ r.file := fun he => by simp [hself he] at hreach
      simp [hother]

/-- A use that a declaration satisfies is dropped only if the file defines the symbol or does not
declare it. -/
theorem forwardIgnored?_eq_some (h : ctx.forwardIgnored? r u = some reason) :
    (∃ d ∈ ctx.declarationsIn r.file u.use.symbol, d.isDefinition = true) ∨
      ctx.declarationsIn r.file u.use.symbol = [] := by
  unfold forwardIgnored? at h
  split at h
  · cases h
  · rename_i s hs
    rw [SymbolTable.key_of_find? hs] at h
    dsimp only at h
    split at h
    · rename_i hdefined
      obtain ⟨d, hd, hdefinition⟩ := List.any_eq_true.1 hdefined
      exact .inl ⟨d, hd, (Bool.and_eq_true_iff.1 hdefinition).1⟩
    · split at h
      · rename_i hnested
        exact .inr (List.isEmpty_iff.1 (Bool.and_eq_true_iff.1 hnested).2)
      · cases h

end DecisionContext

namespace Plan

variable {ctx : DecisionContext} {r : FileRecord} {u : ResolvedUse} {o : UseOutcome} {slot : Slot}
  {a : Attribution}

theorem Decides.offered_eq (h : Decides ctx r u slot o) (ha : u.attribution = some a) :
    ctx.offered r o = DecisionContext.usable r (ctx.allowedCandidates r a.file) := by
  rw [DecisionContext.offered, h.attributed_eq, ha]
  rfl

/-- A use that needs a file and has candidates is satisfied. -/
theorem satisfied_needStatus {assignment : Option Assignment} (h : assignment ≠ none) :
    (needStatus assignment).Satisfied := by
  cases assignment with
  | none => exact absurd rfl h
  | some a =>
    cases a with
    | itself => exact .itself
    | associated f => exact .associated f
    | chosen f => exact .included f

/-- An attributed use of the definition is satisfied exactly if it is not dropped and a provider is
offered. -/
theorem Decides.satisfied_iff_of_full (h : Decides ctx r u slot o) (ha : u.attribution = some a)
    (hfull : o.kind = .full) :
    o.status.Satisfied ↔ ctx.fullIgnored? r a.file u = none ∧ ctx.offered r o ≠ [] := by
  rw [h.kind_eq] at hfull
  rw [h.status_eq, h.offered_eq ha, status]
  rcases DecisionContext.course_of_full ha hfull with ⟨reason, hd, hc⟩ | ⟨hd, hc⟩
  · rw [hc, hd]
    refine iff_of_false (UseStatus.not_satisfied_ignored ?_) fun hkept =>
      Option.some_ne_none reason hkept.1
    rintro rfl
    exact DecisionContext.fullIgnored?_ne_coveredByFullUse hd
  · rcases DecisionContext.providerCourse_cases ctx r a.file with
      ⟨hnil, reason, hreason, hp⟩ | ⟨hsome, hp⟩
    · rw [hc, hp]
      have hother : reason ≠ .coveredByFullUse := by
        rintro rfl
        rcases hreason with h | h <;> cases h
      exact iff_of_false (UseStatus.not_satisfied_ignored hother) fun hoffered => hoffered.2 hnil
    · have hneed : slot.need ≠ [] := by
        rw [h.need, Draft.candidates, hc, hp]
        exact DecisionContext.withTransitive_ne_nil hsome
      rw [hc, hp]
      exact iff_of_true (satisfied_needStatus fun hnone => hneed (h.settled hnone)) ⟨hd, hsome⟩

/-- An attributed use that a declaration satisfies is satisfied without one in the file if it is not
dropped and none is proposed. -/
theorem Decides.satisfied_of_forwardDeclarable (h : Decides ctx r u slot o)
    (ha : u.attribution = some a) (hk : o.kind = .forwardDeclarable)
    (hkept : ctx.forwardIgnored? r u = none) (hnone : o.status ≠ .forwardDeclared) :
    o.status.Satisfied := by
  rw [h.kind_eq] at hk
  rcases DecisionContext.course_of_forwardDeclarable ha hk with ⟨reason, hd⟩ | hc
  · rw [hkept] at hd
    cases hd
  · rw [h.status_eq, status, hc] at hnone ⊢
    simp only [forwardStatus] at hnone ⊢
    split
    · exact .covered
    · rename_i huncovered
      split
      · exact .included _
      · rename_i hinvisible
        rw [if_neg huncovered, hinvisible] at hnone
        exact absurd rfl hnone

end Plan

end IncludeAudit
