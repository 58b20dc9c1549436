import IncludeAudit.Decision.Finalize
import IncludeAudit.Proofs.Cover.Choice
import IncludeAudit.Proofs.Decision.Courses
import IncludeAudit.Proofs.General

/-!
# What was decided on each use

The outcomes of a plan stand in the order of the uses. Behind each is a slot with the candidates of
its use, whose assignment is right (`Decides`):

* `forall₂_decided`: each outcome is decided;
* `exists_own_use`: each chosen include has a use of its own, with no other chosen candidate;
* `exists_asking_use`: each one that is not present has a use without a present candidate;
* `Decides.basis`: what a status tells of the use and its slot (`Basis`).
-/

namespace IncludeAudit

namespace Plan

open Cover (Sound needsOf)

variable {ctx : DecisionContext} {r : FileRecord} {u : ResolvedUse} {o : UseOutcome} {slot : Slot}
  {f : FileName}

/-- The setting in which the includes of a file are chosen. -/
def setting (ctx : DecisionContext) (r : FileRecord) : CoverSetting :=
  ⟨r.file, r.present, ctx.associatedIncludes⟩

/-- The includes that are chosen for a file. -/
def chosen (ctx : DecisionContext) (r : FileRecord) : OrderedSet FileName :=
  (make ctx r).cover.desired

/-- The outcome of a use whose need has the given assignment. -/
def outcomeOf (ctx : DecisionContext) (r : FileRecord) (u : ResolvedUse) (a : Option Assignment) :
    UseOutcome where
  symbol := u.use.symbol
  line := u.use.line
  kind := (ctx.triage r u).kind
  rule := u.verdict.rule
  attributed := u.attribution.map (·.file)
  status := (make ctx r).status ctx r (ctx.triage r u) a

/-- A slot decides on a use: it has the candidates of the use, its assignment is right, and the
outcome is that of the assignment. -/
structure Decides (ctx : DecisionContext) (r : FileRecord) (u : ResolvedUse) (slot : Slot)
    (o : UseOutcome) : Prop where
  need : slot.need = (ctx.triage r u).candidates
  sound : Sound (setting ctx r) (chosen ctx r) slot
  settled : slot.assignment = none → slot.need = []
  outcome : o = outcomeOf ctx r u slot.assignment

namespace Decides

variable (h : Decides ctx r u slot o)

include h

theorem symbol_eq : o.symbol = u.use.symbol := by
  rw [h.outcome]
  rfl

theorem kind_eq : o.kind = (ctx.triage r u).kind := by
  rw [h.outcome]
  rfl

theorem attributed_eq : o.attributed = u.attribution.map (·.file) := by
  rw [h.outcome]
  rfl

theorem status_eq :
    o.status = (make ctx r).status ctx r (ctx.triage r u) slot.assignment := by
  rw [h.outcome]
  rfl

end Decides

/-- The slots of the uses, in their order. They are behind the chosen includes. -/
theorem exists_rows (ctx : DecisionContext) (r : FileRecord) :
    ∃ rows : List (ResolvedUse × Slot),
      rows.map (·.1) = r.resolved ∧
      (make ctx r).outcomes ctx r = rows.map (fun e => outcomeOf ctx r e.1 e.2.assignment) ∧
      (∀ e ∈ rows, Decides ctx r e.1 e.2 (outcomeOf ctx r e.1 e.2.assignment)) ∧
      Cover.Explains (setting ctx r) ((r.resolved.map (ctx.triage r)).map (·.candidates))
        (make ctx r).cover (rows.map (·.2)) := by
  obtain ⟨slots, hslots⟩ :=
    Cover.choose_ok (setting ctx r) ((r.resolved.map (ctx.triage r)).map (·.candidates))
  have hlen : r.resolved.length = slots.length := by
    simpa [needsOf] using (congrArg List.length hslots.needs).symm
  have hrows : List.Forall₂ (fun u slot => slot.need = (ctx.triage r u).candidates)
      r.resolved slots := by
    have h : List.Forall₂ (· = ·) (slots.map (·.need))
        (r.resolved.map fun u => (ctx.triage r u).candidates) := by
      rw [List.forall₂_eq_eq_eq]
      simpa [needsOf, Function.comp_def] using hslots.needs
    exact (List.forall₂_map_right_iff.1 (List.forall₂_map_left_iff.1 h)).flip
  refine ⟨r.resolved.zip slots, List.map_fst_zip (Nat.le_of_eq hlen), ?_, fun e he => ?_, ?_⟩
  · have hmake : (make ctx r).assigned =
        (r.resolved.map (ctx.triage r)).zip (slots.map (·.assignment)) := by
      rw [← hslots.assignments]
      rfl
    rw [outcomes, hmake, List.zip_map, List.map_map]
    refine List.map_congr_left fun e _ => ?_
    simp [outcomeOf]
  · have hslot := (List.of_mem_zip he).2
    exact ⟨List.forall₂_zip hrows he, hslots.balanced.sound _ hslot, hslots.settled _ hslot, rfl⟩
  · rw [List.map_snd_zip (Nat.le_of_eq hlen.symm)]
    exact hslots

theorem drafts_eq {rows : List (ResolvedUse × Slot)} (hresolved : rows.map (·.1) = r.resolved) :
    (make ctx r).drafts = rows.map fun e => ctx.triage r e.1 := by
  rw [← Function.comp_def, ← List.map_map, hresolved]
  rfl

/-- The drafts with their assignments, by the slots of the uses. -/
theorem assigned_eq {rows : List (ResolvedUse × Slot)} (hresolved : rows.map (·.1) = r.resolved)
    (hslots : Cover.Explains (setting ctx r) ((r.resolved.map (ctx.triage r)).map (·.candidates))
      (make ctx r).cover (rows.map (·.2))) :
    (make ctx r).assigned = rows.map fun e => (ctx.triage r e.1, e.2.assignment) := by
  rw [assigned, drafts_eq hresolved, hslots.assignments, List.map_map, List.zip_map']
  rfl

theorem forall₂_decided (ctx : DecisionContext) (r : FileRecord) :
    List.Forall₂ (fun u o => ∃ slot, Decides ctx r u slot o) r.resolved
      ((make ctx r).outcomes ctx r) := by
  obtain ⟨rows, hresolved, houtcomes, hdecides, -⟩ := exists_rows ctx r
  rw [← hresolved, houtcomes, List.forall₂_map_left_iff, List.forall₂_map_right_iff,
    List.forall₂_same]
  exact fun e he => ⟨e.2, hdecides e he⟩

/-- The slots behind the chosen includes are those that decide on the uses. -/
theorem exists_slots (ctx : DecisionContext) (r : FileRecord) :
    ∃ slots, Cover.Explains (setting ctx r) ((r.resolved.map (ctx.triage r)).map (·.candidates))
        (make ctx r).cover slots ∧
      ∀ slot ∈ slots, ∃ e ∈ r.resolved.zip ((make ctx r).outcomes ctx r),
        Decides ctx r e.1 slot e.2 := by
  obtain ⟨rows, hresolved, houtcomes, hdecides, hslots⟩ := exists_rows ctx r
  refine ⟨rows.map (·.2), hslots, fun slot hslot => ?_⟩
  obtain ⟨e, he, rfl⟩ := List.mem_map.1 hslot
  refine ⟨(e.1, outcomeOf ctx r e.1 e.2.assignment), ?_, hdecides e he⟩
  rw [← hresolved, houtcomes, List.zip_map']
  exact List.mem_map_of_mem he

theorem exists_own_use (hf : f ∈ chosen ctx r) :
    ∃ e ∈ r.resolved.zip ((make ctx r).outcomes ctx r), ∃ slot, Decides ctx r e.1 slot e.2 ∧
      slot.assignment = some (.chosen f) ∧ ∀ g ∈ slot.need, g ∈ chosen ctx r → g = f := by
  obtain ⟨slots, hslots, huses⟩ := exists_slots ctx r
  obtain ⟨slot, hslot, ha, hsole⟩ := hslots.own f hf
  obtain ⟨e, he, hd⟩ := huses slot hslot
  exact ⟨e, he, slot, hd, ha, hsole⟩

theorem exists_asking_use (hf : f ∈ chosen ctx r) (habsent : f ∉ r.present) :
    ∃ e ∈ r.resolved.zip ((make ctx r).outcomes ctx r), ∃ slot, Decides ctx r e.1 slot e.2 ∧
      slot.assignment = some (.chosen f) ∧ ∀ g ∈ slot.need, g ∉ r.present := by
  obtain ⟨slots, hslots, huses⟩ := exists_slots ctx r
  obtain ⟨slot, hslot, ha, hlacks⟩ := hslots.demanded f hf habsent
  obtain ⟨e, he, hd⟩ := huses slot hslot
  exact ⟨e, he, slot, hd, ha, hlacks⟩

/-- An include serves the uses for which it is chosen. -/
theorem Decides.of_chosen (h : Decides ctx r u slot o) (ha : slot.assignment = some (.chosen f)) :
    (ctx.triage r u).course = .need slot.need ∧ o.status = .included f ∧
      Cover.AsksInclude (setting ctx r) slot.need := by
  obtain ⟨hasks, hf, -⟩ := h.sound.of_chosen ha
  have hn : (ctx.triage r u).course = .need slot.need := by
    rw [h.need] at hf ⊢
    exact DecisionContext.course_of_mem_candidates hf
  refine ⟨hn, ?_, hasks⟩
  simp [h.outcome, outcomeOf, status, hn, needStatus, ha]

/-! ## What a status tells -/

/-- What stands behind the kind and the status of a use with the given slot. -/
inductive Basis (ctx : DecisionContext) (r : FileRecord) (u : ResolvedUse) (slot : Slot) :
    UseKind → UseStatus → Prop where
  | ignored (kind : UseKind) (reason : IgnoreReason) : Basis ctx r u slot kind (.ignored reason)
  | noDeclaration (kind : UseKind) (ha : u.attribution = none)
    (hc : DecisionContext.usable r (ctx.providers.symbolProviders u.use.symbol.name) = []) :
    Basis ctx r u slot kind .noDeclaration
  /-- The use waits for a declaration. -/
  | declared (status : UseStatus) {a : Attribution} (ha : u.attribution = some a) :
    Basis ctx r u slot .forwardDeclarable status
  | itself (kind : UseKind) (hn : (ctx.triage r u).course = .need slot.need)
    (hf : r.file ∈ slot.need) : Basis ctx r u slot kind .selfProvided
  | associated (kind : UseKind) (hn : (ctx.triage r u).course = .need slot.need)
    (hr : r.file ∉ slot.need) {f : FileName} (hf : f ∈ slot.need)
    (hi : f ∈ ctx.associatedIncludes) : Basis ctx r u slot kind (.viaAssociated f)
  | chosen (kind : UseKind) (hn : (ctx.triage r u).course = .need slot.need)
    (ha : Cover.AsksInclude (setting ctx r) slot.need) {f : FileName} (hf : f ∈ slot.need)
    (hc : f ∈ Plan.chosen ctx r) (hs : slot.assignment = some (.chosen f)) :
    Basis ctx r u slot kind (.included f)

theorem Decides.basis (h : Decides ctx r u slot o) : Basis ctx r u slot o.kind o.status := by
  obtain ⟨hneed, hsound, -, rfl⟩ := h
  simp only [outcomeOf, status]
  cases hc : (ctx.triage r u).course with
  | settled status =>
    rcases DecisionContext.settled_cases hc with ⟨reason, rfl⟩ | ⟨rfl, ha, hu⟩
    · exact .ignored _ reason
    · exact .noDeclaration _ ha hu
  | forward =>
    obtain ⟨hkind, ⟨a, ha⟩, -⟩ := DecisionContext.forward_cases hc
    rw [hkind]
    exact .declared _ ha
  | need candidates =>
    have hn : (ctx.triage r u).course = .need slot.need := by
      rw [hneed, hc, Draft.candidates, hc]
    cases ha : slot.assignment with
    | none => exact .ignored _ _
    | some a =>
      cases a with
      | chosen f =>
        obtain ⟨hasks, hf, hd⟩ := hsound.of_chosen ha
        exact .chosen _ hn hasks hf hd ha
      | itself => exact .itself _ hn (hsound.of_itself ha)
      | associated f =>
        obtain ⟨hr, hf, hi⟩ := hsound.of_associated ha
        exact .associated _ hn hr hf hi

/-! ## What serves a use -/

/-- An include serves a use that needs a file, by its outcome. A use that waits for a declaration is
attributed to a file and does not need the definition. -/
def ServedBy (o : UseOutcome) (f : FileName) : Prop :=
  o.status = .included f ∧ (o.kind = .full ∨ o.attributed = none)

theorem Decides.servedBy_of_chosen (h : Decides ctx r u slot o)
    (ha : slot.assignment = some (.chosen f)) : ServedBy o f := by
  obtain ⟨hn, hstatus, -⟩ := h.of_chosen ha
  refine ⟨hstatus, ?_⟩
  rw [h.attributed_eq, h.kind_eq]
  rcases DecisionContext.need_cases hn with ⟨ha, -⟩ | ⟨a, -, hk, -⟩
  · exact .inr (by rw [ha]; rfl)
  · exact .inl hk

theorem Decides.chosen_of_servedBy (h : Decides ctx r u slot o) (hs : ServedBy o f) :
    slot.assignment = some (.chosen f) := by
  obtain ⟨hstatus, hk⟩ := hs
  have hb := h.basis
  generalize hkind : o.kind = kind at hb hk
  rw [hstatus] at hb
  cases hb with
  | declared _ ha =>
    rw [h.attributed_eq, ha] at hk
    rcases hk with hk | hk <;> cases hk
  | chosen _ hn ha hf hc hs => exact hs

/-- The chosen includes are those that serve a use. -/
theorem mem_chosen_iff :
    f ∈ chosen ctx r ↔ ∃ o ∈ (make ctx r).outcomes ctx r, ServedBy o f := by
  constructor
  · intro hf
    obtain ⟨e, he, slot, hd, ha, -⟩ := exists_own_use hf
    exact ⟨e.2, (List.of_mem_zip he).2, hd.servedBy_of_chosen ha⟩
  · rintro ⟨o, ho, hs⟩
    obtain ⟨u, -, slot, hd⟩ := forall₂_exists_left (forall₂_decided ctx r) o ho
    exact (hd.sound.of_chosen (hd.chosen_of_servedBy hs)).2.2

/-! ## Declarations -/

/-- A use that waits for a declaration is covered, or one is visible, or one is proposed. -/
theorem forwardStatus_cases (p : Plan) (ctx : DecisionContext) (r : FileRecord) (k : SymbolKey) :
    p.forwardStatus ctx r k = .ignored .coveredByFullUse ∨
      (∃ f, p.forwardStatus ctx r k = .included f) ∨
      p.forwardStatus ctx r k = .forwardDeclared := by
  unfold forwardStatus
  split
  · exact .inl rfl
  · split
    · exact .inr (.inl ⟨_, rfl⟩)
    · exact .inr (.inr rfl)

theorem Decides.forward_of_forwardDeclared (h : Decides ctx r u slot o)
    (hs : o.status = .forwardDeclared) :
    (ctx.triage r u).course = .forward ∧
      (make ctx r).forwardStatus ctx r u.use.symbol = .forwardDeclared := by
  rw [h.status_eq] at hs
  simp only [status] at hs
  cases hc : (ctx.triage r u).course with
  | settled status =>
    simp only [hc] at hs
    rcases DecisionContext.settled_cases hc with ⟨reason, hr⟩ | ⟨hr, -⟩
    · rw [hr] at hs
      cases hs
    · rw [hr] at hs
      cases hs
  | need candidates =>
    simp only [hc] at hs
    unfold needStatus at hs
    split at hs <;> cases hs
  | forward =>
    simp only [hc, DecisionContext.triage_symbol] at hs
    exact ⟨rfl, hs⟩

/-- A declaration is needed for the symbols of the uses that one is proposed for. -/
theorem mem_forwardNeeded {k : SymbolKey} :
    k ∈ (make ctx r).forwardNeeded ctx r ↔
      ∃ o ∈ (make ctx r).outcomes ctx r, o.symbol = k ∧ o.status = .forwardDeclared := by
  have hdrafts : (make ctx r).drafts = r.resolved.map (ctx.triage r) := rfl
  rw [forwardNeeded, OrderedSet.mem_ofList, List.mem_filter, List.mem_map, beq_iff_eq]
  constructor
  · rintro ⟨⟨d, hd, rfl⟩, hs⟩
    obtain ⟨hd, hf⟩ := List.mem_filter.1 hd
    rw [hdrafts] at hd
    obtain ⟨u, hu, rfl⟩ := List.mem_map.1 hd
    obtain ⟨o, ho, slot, hdec⟩ := forall₂_exists_right (forall₂_decided ctx r) u hu
    have hc : (ctx.triage r u).course = .forward := by simpa [Draft.isForward] using hf
    refine ⟨o, ho, ?_, ?_⟩
    · rw [hdec.symbol_eq, DecisionContext.triage_symbol]
    · rw [hdec.status_eq]
      simp only [status, hc]
      exact hs
  · rintro ⟨o, ho, rfl, hs⟩
    obtain ⟨u, hu, slot, hdec⟩ := forall₂_exists_left (forall₂_decided ctx r) o ho
    obtain ⟨hc, hforward⟩ := hdec.forward_of_forwardDeclared hs
    rw [hdec.symbol_eq]
    refine ⟨⟨ctx.triage r u, List.mem_filter.2 ⟨?_, ?_⟩, DecisionContext.triage_symbol⟩, hforward⟩
    · rw [hdrafts]
      exact List.mem_map_of_mem hu
    · simp [Draft.isForward, hc]

end Plan

end IncludeAudit
