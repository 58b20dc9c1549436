import IncludeAudit.Proofs.Decision.Satisfaction
import IncludeAudit.Proofs.Session.Declaring

/-!
# Withdrawn declarations

A report withdraws the hand-written declarations that no use in the file waits for. A use that is
dropped waits for nothing, so the last declaration of a symbol may go although a use of the symbol
has nothing in its place (`Abandoned`). `doesWithout_iff` says exactly which uses these are.

* `declaredIn_of_withdrawn`, `not_forwardDeclared_of_withdrawn`: what is withdrawn;
* `exists_attribution`: a use of a symbol that is declared somewhere is attributed.
-/

namespace IncludeAudit

namespace Session

open FileReport (symbolsOf)

/-- A use does without a declaration in the file: it is satisfied otherwise, or the symbol is a
builtin, or the file defines the symbol. -/
def DoesWithout (s : Session) (es : List Event) (f : FileName) (o : UseOutcome) : Prop :=
  o.status.Satisfied ∨ s.isBuiltin o.symbol = true ∨
    ∃ d, DeclaredIn es f o.symbol d ∧ d.isDefinition = true

/-- A use needs the definition of a symbol that is no builtin and that the file does not define, and
gets it from nowhere: the use is attributed to the file itself or to a file that includes it, or no
provider is offered. -/
structure Abandoned (s : Session) (es : List Event) (f : FileName) (o : UseOutcome) : Prop where
  full : o.kind = .full
  notBuiltin : s.isBuiltin o.symbol = false
  undefined : ∀ d, DeclaredIn es f o.symbol d → d.isDefinition = false
  unprovided : ∃ a, o.attributed = some a ∧
    (s.graph.reaches a f = true ∨ (s.context {}).offered (s.recordOf f) o = [])

variable {env : Environment} {main f : FileName} {es : List Event} {s : Session}
  {rep : SessionReport} {report : FileReport} {on : Reliance} {k : SymbolKey} {o : UseOutcome}
  {d : Declaration}

/-! ## What is withdrawn -/

theorem declaredIn_of_withdrawn (hrec : Recorded env main es s) (h : Reported s on f report)
    (hremove : k ∈ symbolsOf report.remove) : ∃ d, DeclaredIn es f k d := by
  obtain ⟨resolved, -, rfl⟩ := h
  rw [Plan.symbolsOf_remove_perm.mem_iff] at hremove
  obtain ⟨e, he, rfl⟩ := List.mem_map.1 hremove
  have hdeclared : e.1.symbol ∈
      Plan.declaredSymbols (s.context on) (s.resolvedRecord f resolved) :=
    List.mem_map_of_mem (mem_splitFirst_iff.2 (.inr he))
  rw [hrec.declaredSymbols] at hdeclared
  obtain ⟨d, hd, hk⟩ := List.mem_map.1 hdeclared
  obtain ⟨hevent, -, hfile⟩ := mem_forwardsIn.1 hd
  exact ⟨d, hevent, hk, hfile⟩

/-- No use waits for a symbol that the file does not declare in the end. -/
theorem not_forwardDeclared_of_withdrawn (h : Reported s on f report) (ho : o ∈ report.uses)
    (hfull : o.symbol ∉ symbolsOf report.full) : o.status ≠ .forwardDeclared := by
  intro hs
  have hknown := find?_of_mem_uses h ho
  obtain ⟨resolved, -, rfl⟩ := h
  exact hfull (Plan.mem_symbolsOf_full (Plan.mem_forwardNeeded.2 ⟨o, ho, rfl, hs⟩) hknown)

theorem exists_attribution (hrec : Recorded env main es s) (hr : s.finish.1 = .ok rep)
    (hreport : report ∈ rep.files) (ho : o ∈ report.uses) (hd : DeclaredIn es f o.symbol d) :
    ∃ a, o.attributed = some a := by
  refine Option.ne_none_iff_exists'.1 fun hnone => ?_
  have hcandidates := candidates_of_unattributed hr hrec.resolved hreport ho hnone
  have hmem : d ∈ (s.context {}).declarationsIn f o.symbol := hrec.mem_declarationsIn.2 hd
  rw [DecisionContext.declarationsIn, context, hcandidates] at hmem
  exact absurd hmem List.not_mem_nil

/-! ## What is left -/

section Decided

variable {resolved : List ResolvedUse} {u : ResolvedUse} {slot : Slot} {a : Attribution}

/-- A use of the definition is satisfied if its symbol is no builtin, the file does not define it,
the file to which the use is attributed does not reach this one, and a provider is offered. -/
theorem satisfied_iff (hrec : Recorded env main es s)
    (hd : Plan.Decides (s.context on) (s.resolvedRecord f resolved) u slot o)
    (hsymbol : (s.table.find? u.use.symbol).isSome = true) (ha : u.attribution = some a)
    (hfull : o.kind = .full) :
    o.status.Satisfied ↔ s.isBuiltin o.symbol = false ∧
      (∀ d, DeclaredIn es f o.symbol d → d.isDefinition = false) ∧
      s.graph.reaches a.file f = false ∧ (s.context {}).offered (s.recordOf f) o ≠ [] := by
  have hself : (s.resolvedRecord f resolved).file = f := hrec.file f
  obtain ⟨symbol, hfind⟩ := Option.isSome_iff_exists.1 hsymbol
  have hbuiltin : s.isBuiltin o.symbol = symbol.traits.isBuiltin := by
    rw [isBuiltin, hd.symbol_eq, hfind]
    rfl
  have hignored : (s.context on).fullIgnored? (s.resolvedRecord f resolved) a.file u = none ↔ _ :=
    DecisionContext.fullIgnored?_eq_none hfind
  simp only [hself, hrec.mem_declarationsIn] at hignored
  rw [hd.satisfied_iff_of_full ha hfull, hignored, hbuiltin, hd.symbol_eq, and_assoc, and_assoc]
  rfl

/-- A use of the definition does without a declaration unless it is abandoned. -/
theorem doesWithout_iff_of_full (hrec : Recorded env main es s)
    (hd : Plan.Decides (s.context on) (s.resolvedRecord f resolved) u slot o)
    (hsymbol : (s.table.find? u.use.symbol).isSome = true) (ha : u.attribution = some a)
    (hfull : o.kind = .full) : s.DoesWithout es f o ↔ ¬ s.Abandoned es f o := by
  have hattributed : o.attributed = some a.file := by rw [hd.attributed_eq, ha]; rfl
  rw [DoesWithout, satisfied_iff hrec hd hsymbol ha hfull]
  constructor
  · rintro hwithout ⟨-, hbuiltin, hundefined, b, hb, hunprovided⟩
    obtain rfl : a.file = b := Option.some.inj (hattributed.symm.trans hb)
    rcases hwithout with ⟨-, -, hreach, hoffered⟩ | hknown | ⟨d, hd, hdefinition⟩
    · rcases hunprovided with hreached | hnil
      · rw [hreach] at hreached
        cases hreached
      · exact hoffered hnil
    · rw [hbuiltin] at hknown
      cases hknown
    · rw [hundefined d hd] at hdefinition
      cases hdefinition
  · intro hkept
    by_cases hbuiltin : s.isBuiltin o.symbol = true
    · exact .inr (.inl hbuiltin)
    · by_cases hdefined : ∃ d, DeclaredIn es f o.symbol d ∧ d.isDefinition = true
      · exact .inr (.inr hdefined)
      · rw [Bool.not_eq_true] at hbuiltin
        have hundefined : ∀ d, DeclaredIn es f o.symbol d → d.isDefinition = false := fun d hd =>
          Bool.eq_false_iff.2 fun hdefinition => hdefined ⟨d, hd, hdefinition⟩
        refine .inl ⟨hbuiltin, hundefined, Bool.eq_false_iff.2 fun hreach => ?_, fun hnil => ?_⟩
        · exact hkept ⟨hfull, hbuiltin, hundefined, a.file, hattributed, .inl hreach⟩
        · exact hkept ⟨hfull, hbuiltin, hundefined, a.file, hattributed, .inr hnil⟩

/-- A use that a declaration satisfies does without one in the file if none is proposed. -/
theorem doesWithout_of_forwardDeclarable (hrec : Recorded env main es s)
    (hd : Plan.Decides (s.context on) (s.resolvedRecord f resolved) u slot o)
    (ha : u.attribution = some a) (hk : o.kind = .forwardDeclarable)
    (hnot : o.status ≠ .forwardDeclared) (hdeclared : DeclaredIn es f o.symbol d) :
    s.DoesWithout es f o := by
  have hself : (s.resolvedRecord f resolved).file = f := hrec.file f
  cases hdropped : (s.context on).forwardIgnored? (s.resolvedRecord f resolved) u with
  | none => exact .inl (hd.satisfied_of_forwardDeclarable ha hk hdropped hnot)
  | some reason =>
    have hcases := DecisionContext.forwardIgnored?_eq_some hdropped
    rw [hself, ← hd.symbol_eq] at hcases
    rcases hcases with ⟨e, he, hdefinition⟩ | hnil
    · exact .inr (.inr ⟨e, hrec.mem_declarationsIn.1 he, hdefinition⟩)
    · have hmem : d ∈ (s.context on).declarationsIn f o.symbol :=
        hrec.mem_declarationsIn.2 hdeclared
      rw [hnil] at hmem
      exact absurd hmem List.not_mem_nil

end Decided

/-- If a report withdraws a declaration and keeps no other of its symbol, each use of the symbol in
the file does without one, unless it is abandoned. -/
theorem doesWithout_iff (hs : (start env main).takeAll es = .ok s) (hr : s.finish.1 = .ok rep) :
    ∀ report ∈ rep.files, ∀ o ∈ report.uses, o.symbol ∈ symbolsOf report.remove →
      o.symbol ∉ symbolsOf report.full →
        (s.DoesWithout es report.file o ↔ ¬ s.Abandoned es report.file o) := by
  have hrec := recorded_of_takeAll hs
  intro report hreport o ho hremove hfull
  obtain ⟨on, hreported⟩ := reported_of_mem hrec hr hreport
  have hnot := not_forwardDeclared_of_withdrawn hreported ho hfull
  -- The file declares the symbol itself, so the use is attributed to some file.
  obtain ⟨d, hdeclared⟩ := declaredIn_of_withdrawn hrec hreported hremove
  obtain ⟨f, hattributed⟩ := exists_attribution hrec hr hreport ho hdeclared
  obtain ⟨resolved, -, hall⟩ := hreported.forall₂_decided
  obtain ⟨c, hc, u, hu, slot, hdec⟩ := forall₂_exists_left hall o ho
  rw [hdec.attributed_eq] at hattributed
  obtain ⟨a, ha, -⟩ := Option.map_eq_some_iff.1 hattributed
  cases hk : o.kind with
  | full => exact doesWithout_iff_of_full hrec hdec (hu.1 ▸ (find?_of_classified hc).2) ha hk
  | forwardDeclarable =>
    refine iff_of_true ?_ fun habandoned => by rw [habandoned.full] at hk; cases hk
    exact doesWithout_of_forwardDeclarable hrec hdec ha hk hnot hdeclared

/-! ## Two declarations that go -/

/-- A source file that declares a class ahead of a use of its definition, and includes the header
with the definition. -/
def redeclarer : List Event :=
  [ .directive ⟨.quoted "f.cc", .quoted "s.h", .line 1, none⟩,
    .declaration { symbol := ⟨"S", .record⟩, location := .plain ⟨.quoted "s.h", 3, 1⟩
                   isDefinition := true },
    .declaration { symbol := ⟨"S", .record⟩, location := .plain ⟨.quoted "f.cc", 2, 1⟩ },
    .use { symbol := ⟨"S", .record⟩, location := .plain ⟨.quoted "f.cc", 9, 1⟩
           hints := { memberAccess := true } } ]

/-- The declaration goes. The header serves the use. -/
theorem doesWithout_redeclarer :
    ∃ s rep, (start (plainEnvironment {}) (.quoted "f.cc")).takeAll redeclarer = .ok s ∧
      s.finish.1 = .ok rep ∧ ∃ report ∈ rep.files, ∃ o ∈ report.uses,
        o.symbol ∈ symbolsOf report.remove ∧ o.symbol ∉ symbolsOf report.full ∧
          s.DoesWithout redeclarer report.file o := by
  obtain ⟨s, hs, h⟩ := exists_ok (p := fun s => s.finish.1.toOption.any fun rep =>
      rep.files.any fun report => report.uses.any fun o =>
        o.attributed == some (.quoted "s.h") && (symbolsOf report.remove).contains o.symbol &&
          !(symbolsOf report.full).contains o.symbol &&
          !s.graph.reaches (.quoted "s.h") report.file &&
          !((s.context {}).offered (s.recordOf report.file) o).isEmpty)
    (by decide +kernel : ((start (plainEnvironment {}) (.quoted "f.cc")).takeAll
      redeclarer).toOption.any _ = true)
  obtain ⟨rep, hr, h⟩ := exists_ok h
  simp only [List.any_eq_true, Bool.and_eq_true, beq_iff_eq, List.contains_eq_mem, decide_eq_true_eq,
    Bool.not_eq_true', decide_eq_false_iff_not, List.isEmpty_eq_false_iff] at h
  obtain ⟨report, hreport, o, ho, ⟨⟨⟨hattributed, hremove⟩, hfull⟩, hreach⟩, hoffered⟩ := h
  refine ⟨s, rep, hs, hr, report, hreport, o, ho, hremove, hfull,
    (doesWithout_iff hs hr report hreport o ho hremove hfull).2 ?_⟩
  rintro ⟨-, -, -, a, ha, hunprovided⟩
  obtain rfl : .quoted "s.h" = a := Option.some.inj (hattributed.symm.trans ha)
  rcases hunprovided with hreached | hnil
  · rw [hreach] at hreached
    cases hreached
  · exact hoffered hnil

/-- A source file that declares a template with default arguments and names it by a pointer, which
takes more than a declaration of it. -/
def defaultedTemplate : List Event :=
  [ .traits ⟨"S", .recordTemplate⟩ { hasDefaultTemplateArgs := true },
    .declaration { symbol := ⟨"S", .recordTemplate⟩, location := .plain ⟨.quoted "f.cc", 3, 1⟩ },
    .use { symbol := ⟨"S", .recordTemplate⟩, location := .plain ⟨.quoted "f.cc", 9, 1⟩
           hints := { pointerOrReference := true } } ]

/-- The declaration goes, the only one there is, since the use is dropped: it is attributed to the
file. -/
theorem abandoned_defaultedTemplate :
    ∃ s rep, (start (plainEnvironment {}) (.quoted "f.cc")).takeAll defaultedTemplate = .ok s ∧
      s.finish.1 = .ok rep ∧ ∃ report ∈ rep.files, ∃ o ∈ report.uses,
        o.symbol ∈ symbolsOf report.remove ∧ o.symbol ∉ symbolsOf report.full ∧
          ¬ s.DoesWithout defaultedTemplate report.file o := by
  obtain ⟨s, hs, h⟩ := exists_ok (p := fun s => s.finish.1.toOption.any fun rep =>
      rep.files.any fun report => report.uses.any fun o =>
        o.status == .ignored .definedInFile && (symbolsOf report.remove).contains o.symbol &&
          !(symbolsOf report.full).contains o.symbol && !s.isBuiltin o.symbol)
    (by decide +kernel : ((start (plainEnvironment {}) (.quoted "f.cc")).takeAll
      defaultedTemplate).toOption.any _ = true)
  obtain ⟨rep, hr, h⟩ := exists_ok h
  simp only [List.any_eq_true, Bool.and_eq_true, beq_iff_eq, List.contains_eq_mem, decide_eq_true_eq,
    Bool.not_eq_true', decide_eq_false_iff_not] at h
  obtain ⟨report, hreport, o, ho, ⟨⟨hstatus, hremove⟩, hfull⟩, hbuiltin⟩ := h
  refine ⟨s, rep, hs, hr, report, hreport, o, ho, hremove, hfull, ?_⟩
  rintro (hsatisfied | hknown | ⟨d, ⟨hd, -, -⟩, hdefinition⟩)
  · rw [hstatus] at hsatisfied
    cases hsatisfied
  · rw [hbuiltin] at hknown
    cases hknown
  · simp only [defaultedTemplate, List.mem_cons, reduceCtorEq, false_or, Event.declaration.injEq,
      List.not_mem_nil, or_false] at hd
    rw [hd] at hdefinition
    cases hdefinition

end Session

end IncludeAudit
