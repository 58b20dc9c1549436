import IncludeAudit.Decision.Triage

/-!
# The courses of uses

`triage_cases` says once what can become of a use: it is a use of a name without a declaration, or a
declaration satisfies it, or it is dropped, or it needs a provider. The other lemmas are read off
these cases:

* `triage_symbol` and the like: what the draft keeps of the use;
* `forward_cases`, `settled_cases`, `need_cases`: what each course tells of the use;
* `settled_definedInFile_iff`: exactly which uses are dropped because of a definition in the file.
-/

namespace IncludeAudit

namespace DecisionContext

variable {ctx : DecisionContext} {r : FileRecord} {u : ResolvedUse}

/-- The cases follow the branches of `triage`; `a` is the attribution of the use. -/
theorem triage_cases {P : Draft → Prop}
    (unnamed : u.attribution = none → P (draft u (ctx.strictKind r u) (ctx.nameCourse r u)))
    (forward : ∀ a, u.attribution = some a → ctx.strictKind r u = .forwardDeclarable →
      P (draft u .forwardDeclarable (ctx.forwardCourse r u)))
    (declared : ∀ a, u.attribution = some a → ctx.strictKind r u = .full →
      ctx.hasLocalDeclaration r u = true → P (draft u .forwardDeclarable .forward))
    (dropped : ∀ a reason, u.attribution = some a → ctx.strictKind r u = .full →
      ctx.hasLocalDeclaration r u = false → ctx.fullIgnored? r a.file u = some reason →
      P (draft u .full (.settled (.ignored reason))))
    (provided : ∀ a, u.attribution = some a → ctx.strictKind r u = .full →
      ctx.hasLocalDeclaration r u = false → ctx.fullIgnored? r a.file u = none →
      P { draft u .full (ctx.providerCourse r a.file) with
          privateHeader := ctx.deadEnd? r a.file }) :
    P (ctx.triage r u) := by
  unfold triage
  cases ha : u.attribution with
  | none => exact unnamed ha
  | some a =>
    cases hk : ctx.strictKind r u with
    | forwardDeclarable => exact forward a ha hk
    | full =>
      cases hl : ctx.hasLocalDeclaration r u with
      | true => exact declared a ha hk hl
      | false =>
        cases hd : ctx.fullIgnored? r a.file u with
        | some reason =>
          simp only [Bool.false_eq_true, if_false, hd]
          exact dropped a reason ha hk hl hd
        | none =>
          simp only [Bool.false_eq_true, if_false, hd]
          exact provided a ha hk hl hd

/-! ## What a draft keeps of its use -/

@[simp]
theorem triage_symbol : (ctx.triage r u).symbol = u.use.symbol := by
  refine triage_cases (P := fun d => d.symbol = u.use.symbol) ?_ ?_ ?_ ?_ ?_ <;> intros <;> rfl

@[simp]
theorem triage_line : (ctx.triage r u).line = u.use.line := by
  refine triage_cases (P := fun d => d.line = u.use.line) ?_ ?_ ?_ ?_ ?_ <;> intros <;> rfl

@[simp]
theorem triage_rule : (ctx.triage r u).rule = u.verdict.rule := by
  refine triage_cases (P := fun d => d.rule = u.verdict.rule) ?_ ?_ ?_ ?_ ?_ <;> intros <;> rfl

@[simp]
theorem triage_attributed : (ctx.triage r u).attributed = u.attribution.map (·.file) := by
  refine triage_cases (P := fun d => d.attributed = u.attribution.map (·.file)) ?_ ?_ ?_ ?_ ?_ <;>
    intros <;> rfl

/-! ## What a course tells of its use -/

/-- Only an attributed use waits for a declaration, because it needs no more, or because the file
defines its symbol after it only. -/
theorem forward_cases (h : (ctx.triage r u).course = .forward) :
    (ctx.triage r u).kind = .forwardDeclarable ∧ (∃ a, u.attribution = some a) ∧
      (ctx.strictKind r u = .forwardDeclarable ∨ ctx.hasLocalDeclaration r u = true) := by
  revert h
  refine triage_cases (P := fun d => d.course = .forward →
    d.kind = .forwardDeclarable ∧ (∃ a, u.attribution = some a) ∧
      (ctx.strictKind r u = .forwardDeclarable ∨ ctx.hasLocalDeclaration r u = true)) ?_ ?_ ?_ ?_ ?_
  · intro _ h
    simp only [draft, nameCourse] at h
    split at h <;> cases h
  · exact fun a ha hk _ => ⟨rfl, ⟨a, ha⟩, .inl hk⟩
  · exact fun a ha _ hl _ => ⟨rfl, ⟨a, ha⟩, .inr hl⟩
  · intro _ _ _ _ _ _ h
    cases h
  · intro _ _ _ _ _ h
    simp only [draft, providerCourse] at h
    split at h
    · cases h
    · split at h <;> cases h

/-- A use needs a declaration only if the classification says so and no ban makes it strict. -/
theorem strictKind_eq_forwardDeclarable :
    ctx.strictKind r u = .forwardDeclarable ↔ ctx.policy.noForwardDecls = false ∧
      u.use.symbol.name ∉ r.pragmas.noForwardDeclare ∧ u.verdict.kind = .forwardDeclarable := by
  unfold strictKind
  split
  · rename_i hbanned
    simp only [Bool.or_eq_true, OrderedSet.contains_eq_true] at hbanned
    simp only [reduceCtorEq, false_iff, not_and]
    intro hpolicy hpragma
    exact absurd (hbanned.resolve_left (by simp [hpolicy])) hpragma
  · rename_i hbanned
    simp only [Bool.or_eq_true, OrderedSet.contains_eq_true, not_or, Bool.not_eq_true] at hbanned
    rw [← and_assoc, and_iff_right hbanned]

/-- A use that is settled at once is ignored, or nothing declares its symbol. -/
theorem settled_cases {status : UseStatus} (h : (ctx.triage r u).course = .settled status) :
    (∃ reason, status = .ignored reason) ∨
      status = .noDeclaration ∧ u.attribution = none ∧
        usable r (ctx.providers.symbolProviders u.use.symbol.name) = [] := by
  revert h
  refine triage_cases (P := fun d => d.course = .settled status → _) ?_ ?_ ?_ ?_ ?_
  · intro ha h
    simp only [draft, nameCourse] at h
    split at h
    · rename_i he
      cases h
      exact .inr ⟨rfl, ha, List.isEmpty_iff.1 he⟩
    · cases h
  · intro _ _ _ h
    simp only [draft, forwardCourse] at h
    split at h <;> cases h
    exact .inl ⟨_, rfl⟩
  · intro _ _ _ _ h
    cases h
  · intro _ reason _ _ _ _ h
    cases h
    exact .inl ⟨reason, rfl⟩
  · intro _ _ _ _ _ h
    simp only [draft, providerCourse] at h
    split at h
    · cases h
      exact .inl ⟨_, rfl⟩
    · split at h <;> cases h
      exact .inl ⟨_, rfl⟩

/-- A use that needs a file needs one of the headers known for its name, if nothing declares its
symbol, and otherwise one of the candidates for the file to which it is attributed. -/
theorem need_cases {candidates : List FileName} (h : (ctx.triage r u).course = .need candidates) :
    u.attribution = none ∧
        candidates = usable r (ctx.providers.symbolProviders u.use.symbol.name) ∨
      ∃ a, u.attribution = some a ∧ (ctx.triage r u).kind = .full ∧
        candidates = ctx.withTransitive r (usable r (ctx.allowedCandidates r a.file)) := by
  revert h
  refine triage_cases (P := fun d => d.course = .need candidates →
    u.attribution = none ∧
        candidates = usable r (ctx.providers.symbolProviders u.use.symbol.name) ∨
      ∃ a, u.attribution = some a ∧ d.kind = .full ∧
        candidates = ctx.withTransitive r (usable r (ctx.allowedCandidates r a.file)))
    ?_ ?_ ?_ ?_ ?_
  · intro ha h
    simp only [draft, nameCourse] at h
    split at h <;> cases h
    exact .inl ⟨ha, rfl⟩
  · intro _ _ _ h
    simp only [draft, forwardCourse] at h
    split at h <;> cases h
  · intro _ _ _ _ h
    cases h
  · intro _ _ _ _ _ _ h
    cases h
  · intro a ha _ _ _ h
    simp only [draft, providerCourse] at h
    split at h
    · cases h
    · split at h <;> cases h
      exact .inr ⟨a, ha, rfl, rfl⟩

/-- An attributed use that needs a file asks for a warning if its chain ends at a private one. -/
theorem privateHeader_of_need {candidates : List FileName} {a : Attribution}
    (h : (ctx.triage r u).course = .need candidates) (ha : u.attribution = some a) :
    (ctx.triage r u).privateHeader = ctx.deadEnd? r a.file := by
  revert h
  refine triage_cases (P := fun d => d.course = .need candidates →
    d.privateHeader = ctx.deadEnd? r a.file) ?_ ?_ ?_ ?_ ?_
  · intro hnone
    rw [hnone] at ha
    cases ha
  · intro _ _ _ h
    simp only [draft, forwardCourse] at h
    split at h <;> cases h
  · intro _ _ _ _ h
    cases h
  · intro _ _ _ _ _ _ h
    cases h
  · intro b hb _ _ _ _
    obtain rfl : a = b := Option.some.inj (ha.symm.trans hb)
    rfl

/-- Only a use that needs a file has candidates. -/
theorem course_of_mem_candidates {d : Draft} {f : FileName} (hf : f ∈ d.candidates) :
    d.course = .need d.candidates := by
  unfold Draft.candidates at hf ⊢
  cases hc : d.course with
  | settled => simp [hc] at hf
  | need candidates => rfl
  | forward => simp [hc] at hf

/-! ## Definitions in the file -/

/-- The file of a use counts as defining a symbol if a use of it is attributed to the file, or if a
declaration of it in the file is a definition, of whatever specialization. -/
def definesSymbol (ctx : DecisionContext) (r : FileRecord) (attributed : FileName)
    (k : SymbolKey) : Prop :=
  attributed = r.file ∨ ∃ d ∈ ctx.declarationsIn r.file k, d.isDefinition = true

theorem fullIgnored?_eq_definedInFile {attributed : FileName} :
    ctx.fullIgnored? r attributed u = some .definedInFile ↔
      ∃ s, ctx.table.find? u.use.symbol = some s ∧ s.traits.isBuiltin = false ∧
        ctx.definesSymbol r attributed s.key := by
  unfold fullIgnored?
  cases ctx.table.find? u.use.symbol with
  | none => simp
  | some s =>
    have hd : (attributed = r.file || (ctx.declarationsIn r.file s.key).any (·.isDefinition)) = true ↔
        ctx.definesSymbol r attributed s.key := by
      simp [definesSymbol]
    simp only [Option.some.injEq, exists_eq_left', ← hd]
    cases s.traits.isBuiltin with
    | true => simp
    | false =>
      split
      · contradiction
      · split
        · simp_all
        · split <;> simp_all

theorem forwardIgnored?_ne_definedInFile : ctx.forwardIgnored? r u ≠ some .definedInFile := by
  unfold forwardIgnored?
  split
  · simp
  · dsimp only
    split
    · simp
    · split <;> simp

/-- A use is dropped because of a definition in the file exactly if it needs a definition, its
symbol is no builtin, and the file counts as defining it. -/
theorem settled_definedInFile_iff :
    (ctx.triage r u).course = .settled (.ignored .definedInFile) ↔
      (ctx.triage r u).kind = .full ∧ ∃ a, u.attribution = some a ∧
        ctx.fullIgnored? r a.file u = some .definedInFile := by
  refine triage_cases (P := fun d => d.course = .settled (.ignored .definedInFile) ↔
    d.kind = .full ∧ ∃ a, u.attribution = some a ∧
      ctx.fullIgnored? r a.file u = some .definedInFile) ?_ ?_ ?_ ?_ ?_
  · intro ha
    simp only [draft, nameCourse, ha]
    split <;> simp
  · intro a ha _
    simp only [draft, forwardCourse]
    split
    · rename_i hf
      simpa using fun e => forwardIgnored?_ne_definedInFile (e ▸ hf)
    · simp
  · intro a _ _ _
    simp [draft]
  · intro a reason ha _ _ hd
    simp [draft, ha, hd]
  · intro a ha _ _ hd
    simp only [draft, providerCourse, ha]
    split
    · simp [hd]
    · split <;> simp [hd]

end DecisionContext

end IncludeAudit
