import IncludeAudit.Proofs.Decision.Satisfaction

/-!
# What a use asks for

A use asks for one of a list of files, or for a declaration in the file, or for nothing. Which it is
follows from what the use needs, from the file to which it is attributed and from what the reported
file declares:

* `asksFile_iff`, `asksDeclaration_iff`: the uses of these courses;
* `Decides.fate`: how a use gets its status;
* `Decides.ending_of_full`: how a use of the definition ends.
-/

namespace IncludeAudit

open Plan (Decides)

namespace DecisionContext

variable {ctx : DecisionContext} {r : FileRecord} {u : ResolvedUse} {o : UseOutcome} {slot : Slot}
  {a : Attribution} {attributed : FileName} {reason : IgnoreReason} {s : Symbol}

/-- The use is of a builtin or of a symbol that the file defines, or the file to which it is
attributed includes the file or is the file. -/
def Exempt (ctx : DecisionContext) (r : FileRecord) (o : UseOutcome) : Prop :=
  ∃ a s, o.attributed = some a ∧ ctx.table.find? o.symbol = some s ∧
    (s.traits.isBuiltin = true ∨
      (∃ d ∈ ctx.declarationsIn r.file o.symbol, d.isDefinition = true) ∨
      ctx.graph.reaches a r.file = true)

/-- The use is of a name that nothing declares, or of a definition without being exempt, and there
is a file to offer. -/
def AsksFile (ctx : DecisionContext) (r : FileRecord) (o : UseOutcome) : Prop :=
  ctx.offered r o ≠ [] ∧ (o.attributed = none ∨ o.kind = .full ∧ ¬ ctx.Exempt r o)

/-- The use is attributed to some file. It needs a declaration only and is not dropped, or the file
declares the symbol ahead of it and defines it after it. -/
def AsksDeclaration (ctx : DecisionContext) (r : FileRecord) (u : ResolvedUse) : Prop :=
  u.attribution ≠ none ∧
    (ctx.strictKind r u = .forwardDeclarable ∧ ctx.forwardIgnored? r u = none ∨
      ctx.strictKind r u = .full ∧ ctx.hasLocalDeclaration r u = true)

/-! ## Reasons -/

theorem fullIgnored?_eq_some (h : ctx.fullIgnored? r attributed u = some reason) :
    reason = .builtin ∨ reason = .definedInFile ∨ reason = .backwardsInclude := by
  unfold fullIgnored? at h
  split at h
  · cases h
  · split at h
    · exact .inl (Option.some.inj h).symm
    · split at h
      · exact .inr (.inl (Option.some.inj h).symm)
      · split at h <;> cases h
        exact .inr (.inr rfl)

theorem forwardIgnored?_cases (h : ctx.forwardIgnored? r u = some reason) :
    reason = .definedEarlierInFile ∨ reason = .nestedClass := by
  unfold forwardIgnored? at h
  split at h
  · cases h
  · dsimp only at h
    split at h
    · exact .inl (Option.some.inj h).symm
    · split at h <;> cases h
      exact .inr rfl

theorem exempt_iff (h : Decides ctx r u slot o) (ha : u.attribution = some a) :
    ctx.Exempt r o ↔ ctx.fullIgnored? r a.file u ≠ none := by
  rw [Exempt, h.attributed_eq, h.symbol_eq, ha]
  cases hs : ctx.table.find? u.use.symbol with
  | none => simp [fullIgnored?, hs]
  | some s =>
    rw [Ne, fullIgnored?_eq_none hs]
    simp only [Option.map_some, Option.some.injEq, exists_and_left, exists_eq_left', not_and_or,
      Bool.not_eq_false, not_forall, exists_prop]

/-- A use that needs a declaration only is not dropped exactly if the file does not define the
symbol ahead of it and, for a nested class, declares the symbol at all. -/
theorem forwardIgnored?_eq_none (hs : ctx.table.find? u.use.symbol = some s) :
    ctx.forwardIgnored? r u = none ↔
      (∀ d ∈ ctx.declarationsIn r.file u.use.symbol, d.isDefinition = true →
        u.use.line < d.lines.first) ∧
      (s.traits.enclosingClass.isSome = true →
        ctx.declarationsIn r.file u.use.symbol ≠ []) := by
  simp only [forwardIgnored?, hs, SymbolTable.key_of_find? hs]
  split
  · rename_i hdefined
    refine iff_of_false (Option.some_ne_none _) fun ⟨hlater, _⟩ => ?_
    obtain ⟨d, hd, hdefinition⟩ := List.any_eq_true.1 hdefined
    rw [Bool.and_eq_true, decide_eq_true_eq] at hdefinition
    exact Nat.not_le_of_lt (hlater d hd hdefinition.1) hdefinition.2
  · rename_i hundefined
    have hlater : ∀ d ∈ ctx.declarationsIn r.file u.use.symbol, d.isDefinition = true →
        u.use.line < d.lines.first := by
      intro d hd hdefinition
      refine Nat.lt_of_not_le fun hle => hundefined (List.any_eq_true.2 ⟨d, hd, ?_⟩)
      rw [hdefinition, Bool.true_and, decide_eq_true_eq]
      exact hle
    split
    · rename_i hnested
      rw [Bool.and_eq_true, List.isEmpty_iff] at hnested
      exact iff_of_false (Option.some_ne_none _) fun ⟨_, hdeclared⟩ => hdeclared hnested.1 hnested.2
    · rename_i hkept
      refine iff_of_true rfl ⟨hlater, fun hnested hnil => hkept ?_⟩
      rw [hnested, hnil]
      rfl

/-! ## Courses -/

theorem course_of_unattributed (ha : u.attribution = none) :
    (ctx.triage r u).course = ctx.nameCourse r u := by
  simp only [triage, ha, draft]

/-- Only a use of the definition is settled because no provider is usable. -/
theorem full_of_settled (h : (ctx.triage r u).course = .settled (.ignored .noUsableProvider)) :
    (ctx.triage r u).kind = .full := by
  revert h
  refine triage_cases (P := fun d => d.course = .settled (.ignored .noUsableProvider) →
    d.kind = .full) ?_ ?_ ?_ ?_ ?_
  · intro _ h
    simp only [draft, nameCourse] at h
    split at h <;> cases h
  · intro _ _ _ h
    simp only [draft, forwardCourse] at h
    split at h <;> cases h
    rename_i hignored
    rcases forwardIgnored?_cases hignored with hr | hr <;> cases hr
  · intro _ _ _ _ h
    cases h
  · intros
    rfl
  · intros
    rfl

/-- The uses that need a file are those that ask for one. -/
theorem asksFile_iff (h : Decides ctx r u slot o) :
    ctx.AsksFile r o ↔ (ctx.triage r u).course = .need slot.need := by
  rw [AsksFile, h.need, Draft.candidates, h.kind_eq]
  cases ha : u.attribution with
  | none =>
    have hoffered : ctx.offered r o = usable r (ctx.providers.symbolProviders u.use.symbol.name) := by
      rw [offered, h.attributed_eq, h.symbol_eq, ha]
      rfl
    rw [hoffered, h.attributed_eq, ha, course_of_unattributed ha, nameCourse]
    cases usable r (ctx.providers.symbolProviders u.use.symbol.name) <;> simp
  | some a =>
    have hattributed : o.attributed ≠ none := by
      rw [h.attributed_eq, ha]
      exact Option.some_ne_none _
    rw [h.offered_eq ha, or_iff_right hattributed, exempt_iff h ha, not_not]
    cases hk : (ctx.triage r u).kind with
    | forwardDeclarable =>
      refine iff_of_false (by simp) fun hneed => ?_
      rcases need_cases hneed with ⟨hnone, -⟩ | ⟨-, -, hfull, -⟩
      · rw [ha] at hnone
        cases hnone
      · rw [hk] at hfull
        cases hfull
    | full =>
      rcases course_of_full ha hk with ⟨reason, hd, hc⟩ | ⟨hd, hc⟩
      · simp [hd, hc]
      · rcases providerCourse_cases ctx r a.file with ⟨hnil, reason, -, hp⟩ | ⟨hsome, hp⟩
        · simp [hc, hp, hnil]
        · simp [hc, hp, hd, hsome]

/-- The uses that wait for a declaration are those that ask for one. -/
theorem asksDeclaration_iff : (ctx.triage r u).course = .forward ↔ ctx.AsksDeclaration r u := by
  unfold AsksDeclaration
  refine triage_cases (P := fun d => d.course = .forward ↔ _) ?_ ?_ ?_ ?_ ?_
  · intro ha
    rw [ha]
    simp only [draft, nameCourse]
    split <;> simp
  · intro a ha hk
    simp only [draft, forwardCourse, ha, hk]
    cases ctx.forwardIgnored? r u <;> simp
  · intro a ha hk hl
    simp [draft, ha, hk, hl]
  · intro a reason ha hk hl _
    simp [draft, ha, hk, hl]
  · intro a ha hk hl _
    simp only [draft, providerCourse, ha, hk, hl]
    split
    · simp
    · split <;> simp

/-! ## Endings -/

/-- How a use gets its status: it is settled at once, or it asks for a file and gets one, or it
waits for a declaration, which is covered, visible or proposed. -/
inductive Fate (ctx : DecisionContext) (r : FileRecord) (u : ResolvedUse) (o : UseOutcome) :
    UseStatus → Prop where
  | settled {status : UseStatus} (hc : (ctx.triage r u).course = .settled status) :
    Fate ctx r u o status
  | itself (h : ctx.AsksFile r o) : Fate ctx r u o .selfProvided
  | associated (h : ctx.AsksFile r o) (f : FileName) : Fate ctx r u o (.viaAssociated f)
  | chosen (h : ctx.AsksFile r o) {f : FileName} (hf : f ∈ Plan.chosen ctx r) :
    Fate ctx r u o (.included f)
  | covered (hc : (ctx.triage r u).course = .forward) : Fate ctx r u o (.ignored .coveredByFullUse)
  | visible (hc : (ctx.triage r u).course = .forward) (f : FileName) : Fate ctx r u o (.included f)
  | proposed (hc : (ctx.triage r u).course = .forward) : Fate ctx r u o .forwardDeclared

/-- How a use of the definition ends. -/
inductive Ending (ctx : DecisionContext) (r : FileRecord) (o : UseOutcome) : UseStatus → Prop where
  | exempt {reason : IgnoreReason} (h : ctx.Exempt r o)
    (hr : reason = .builtin ∨ reason = .definedInFile ∨ reason = .backwardsInclude) :
    Ending ctx r o (.ignored reason)
  | unnamed (h : ¬ ctx.Exempt r o) (hn : ctx.offered r o = []) : Ending ctx r o .noDeclaration
  | refused {reason : IgnoreReason} (h : ¬ ctx.Exempt r o) (hn : ctx.offered r o = [])
    (hr : reason = .outsideTransitiveClosure ∨ reason = .noUsableProvider) :
    Ending ctx r o (.ignored reason)
  | itself (h : ctx.AsksFile r o) : Ending ctx r o .selfProvided
  | associated (h : ctx.AsksFile r o) (f : FileName) : Ending ctx r o (.viaAssociated f)
  | included (h : ctx.AsksFile r o) {f : FileName} (hf : f ∈ Plan.chosen ctx r) :
    Ending ctx r o (.included f)

/-- A use that asks for a file and gets one ends so. -/
theorem Fate.ending {status : UseStatus} (h : ctx.Fate r u o status)
    (hneed : ∃ need, (ctx.triage r u).course = .need need) : ctx.Ending r o status := by
  obtain ⟨need, hneed⟩ := hneed
  cases h with
  | settled hc => rw [hneed] at hc; cases hc
  | itself h => exact .itself h
  | associated h f => exact .associated h f
  | chosen h hf => exact .included h hf
  | covered hc => rw [hneed] at hc; cases hc
  | visible hc => rw [hneed] at hc; cases hc
  | proposed hc => rw [hneed] at hc; cases hc

end DecisionContext

namespace Plan

open DecisionContext (AsksFile Ending Fate asksFile_iff exempt_iff)

variable {ctx : DecisionContext} {r : FileRecord} {u : ResolvedUse} {o : UseOutcome} {slot : Slot}

/-- A use that asks for a file is given one. -/
theorem Decides.assignment_ne_none (h : Decides ctx r u slot o) (hasks : ctx.AsksFile r o) :
    slot.assignment ≠ none := by
  intro hnone
  have hneed := h.need_eq ((asksFile_iff h).1 hasks)
  rw [h.settled hnone] at hneed
  exact hasks.1 (List.append_eq_nil_iff.1 hneed.symm).2

/-- What an include serves asks for a file. -/
theorem Decides.asksFile_of_servedBy {f : FileName} (h : Decides ctx r u slot o)
    (hs : ServedBy o f) : ctx.AsksFile r o :=
  (asksFile_iff h).2 (h.of_chosen (h.chosen_of_servedBy hs)).1

/-- The symbols of which some use asks for a file. -/
theorem mem_fullSymbols {k : SymbolKey} :
    k ∈ (make ctx r).fullSymbols ↔
      ∃ o ∈ (make ctx r).outcomes ctx r, o.symbol = k ∧ ctx.AsksFile r o := by
  have hdecided := forall₂_decided ctx r
  have hneed : ∀ u, (ctx.triage r u).isNeed = true ↔
      (ctx.triage r u).course = .need (ctx.triage r u).candidates := by
    intro u
    unfold Draft.isNeed Draft.candidates
    cases (ctx.triage r u).course <;> simp
  simp only [fullSymbols, make, List.mem_map, List.mem_filter]
  constructor
  · rintro ⟨-, ⟨⟨u, hu, rfl⟩, hcourse⟩, rfl⟩
    obtain ⟨o, ho, slot, hd⟩ := forall₂_exists_right hdecided u hu
    refine ⟨o, ho, by rw [hd.symbol_eq, DecisionContext.triage_symbol], ?_⟩
    rw [asksFile_iff hd, hd.need]
    exact (hneed u).1 hcourse
  · rintro ⟨o, ho, rfl, hasks⟩
    obtain ⟨u, hu, slot, hd⟩ := forall₂_exists_left hdecided o ho
    rw [asksFile_iff hd, hd.need] at hasks
    refine ⟨ctx.triage r u, ⟨⟨u, hu, rfl⟩, (hneed u).2 hasks⟩, ?_⟩
    rw [DecisionContext.triage_symbol, hd.symbol_eq]

theorem Decides.fate (h : Decides ctx r u slot o) : ctx.Fate r u o o.status := by
  rw [h.status_eq, status]
  cases hc : (ctx.triage r u).course with
  | settled status => exact .settled hc
  | need candidates =>
    have hasks : ctx.AsksFile r o := by rw [asksFile_iff h, h.need, Draft.candidates, hc]
    cases ha : slot.assignment with
    | none => exact absurd ha (h.assignment_ne_none hasks)
    | some a =>
      cases a with
      | itself => exact .itself hasks
      | associated f => exact .associated hasks f
      | chosen f => exact .chosen hasks (h.sound.of_chosen ha).2.2
  | forward =>
    dsimp only
    rcases forwardStatus_cases (make ctx r) ctx r (ctx.triage r u).symbol with hs | ⟨f, hs⟩ | hs <;>
      rw [hs]
    · exact .covered hc
    · exact .visible hc f
    · exact .proposed hc

/-- A use of the definition is dropped, or nothing is offered to it, or it gets a file. -/
theorem Decides.ending_of_full (h : Decides ctx r u slot o) (hfull : o.kind = .full) :
    ctx.Ending r o o.status := by
  by_cases hasks : ctx.AsksFile r o
  · exact h.fate.ending ⟨_, (asksFile_iff h).1 hasks⟩
  have hcourse := mt (asksFile_iff h).2 hasks
  rw [h.kind_eq] at hfull
  rw [h.status_eq, status]
  cases ha : u.attribution with
  | none =>
    have hattributed : o.attributed = none := by rw [h.attributed_eq, ha]; rfl
    have hnil : ctx.offered r o = [] := not_not.1 fun hoffered =>
      hasks ⟨hoffered, .inl hattributed⟩
    have hexempt : ¬ ctx.Exempt r o := by
      rintro ⟨a, -, hsome, -⟩
      rw [hattributed] at hsome
      cases hsome
    have hnone : (ctx.triage r u).course = .settled .noDeclaration := by
      rw [DecisionContext.offered, hattributed, h.symbol_eq] at hnil
      simp only [DecisionContext.course_of_unattributed ha, DecisionContext.nameCourse, hnil,
        List.isEmpty_nil, if_true]
    rw [hnone]
    exact .unnamed hexempt hnil
  | some a =>
    rcases DecisionContext.course_of_full ha hfull with ⟨reason, hd, hc⟩ | ⟨hd, hc⟩
    · rw [hc]
      refine .exempt ((exempt_iff h ha).2 ?_) (DecisionContext.fullIgnored?_eq_some hd)
      rw [hd]
      exact Option.some_ne_none reason
    · have hexempt : ¬ ctx.Exempt r o := by
        rw [exempt_iff h ha, not_not]
        exact hd
      rcases DecisionContext.providerCourse_cases ctx r a.file with
        ⟨hnil, reason, hreason, hp⟩ | ⟨hsome, hp⟩
      · rw [hc, hp]
        exact .refused hexempt (by rw [h.offered_eq ha, hnil]) hreason
      · refine absurd ?_ hcourse
        rw [h.need, Draft.candidates, hc, hp]

/-- Only a use of the definition ends without a usable provider. -/
theorem Decides.full_of_noUsableProvider (h : Decides ctx r u slot o)
    (hs : o.status = .ignored .noUsableProvider) : o.kind = .full := by
  have hfate := h.fate
  rw [hs] at hfate
  cases hfate with
  | settled hc =>
    rw [h.kind_eq]
    exact DecisionContext.full_of_settled hc

/-- Only a use that is attributed to no file ends without a declaration. -/
theorem Decides.unattributed_of_noDeclaration (h : Decides ctx r u slot o)
    (hs : o.status = .noDeclaration) : o.attributed = none := by
  have hfate := h.fate
  rw [hs] at hfate
  cases hfate with
  | settled hc =>
    rcases DecisionContext.settled_cases hc with ⟨reason, hr⟩ | ⟨-, ha, -⟩
    · cases hr
    · rw [h.attributed_eq, ha]
      rfl

end Plan

end IncludeAudit
