import IncludeAudit.Proofs.Decision.Declarations
import IncludeAudit.Proofs.Session.Directives
import IncludeAudit.Proofs.Session.LocalDefinitions
import IncludeAudit.Proofs.Use.Classification

/-!
# Which symbols a file is told to declare

The classification, the pragmas and the policy agree that only certain symbols are declared by files
that do not define them (`Declarable`). One rule looks at none of them: a use of whatever symbol
waits for a declaration if the file declares the symbol ahead of the use and defines it after the
use only. Unless that declaration is one that is written by hand, the file is told to add a line
(`Misdeclared`). `declared_declarable_iff` says that there is no other way.

* `mem_add_iff`: for which symbols a line is added;
* `declarable_or_definedLater`: what is known of a symbol that needs a declaration.
-/

namespace IncludeAudit

/-- A pragma in the file says that the symbol is never declared there. -/
def BannedIn (es : List Event) (f : FileName) (k : SymbolKey) : Prop :=
  ∃ line symbol, .pragma ⟨f, line, .noForwardDeclare symbol⟩ ∈ es ∧
    SymbolKey.dropGlobalScope symbol = k.name

/-- A file may be told to declare the symbol. -/
structure Declarable (env : Environment) (es : List Event) (f : FileName) (k : SymbolKey) :
    Prop where
  kind : k.kind = .record ∨ k.kind = .recordTemplate
  namespaces : ∀ scope ∈ env.policy.systemNamespaces, k.isIn scope = false
  pragmas : ¬ BannedIn es f k
  policy : env.policy.noForwardDecls = false

/-- The file declares the symbol of a use ahead of the use and defines it after the use only. -/
structure DefinedLater (es : List Event) (f : FileName) (u : Use) : Prop where
  defined : ∃ d, DeclaredIn es f u.symbol d ∧ d.isDefinition = true
  later : ∀ d, DeclaredIn es f u.symbol d → d.isDefinition = true → u.line < d.lines.first
  declared : ∃ d, DeclaredIn es f u.symbol d ∧ d.isDefinition = false ∧ d.lines.first < u.line

/-- A use because of which the file is told to declare what it must not declare: the file declares
it ahead of the use, but not by hand. -/
structure Misdeclared (env : Environment) (es : List Event) (f : FileName) (u : Use)
    (o : UseOutcome) : Prop where
  proposed : o.status = .forwardDeclared
  later : DefinedLater es f u
  unwritten : ∀ d, DeclaredIn es f u.symbol d → d.isForward = false
  banned : ¬ Declarable env es f u.symbol

namespace Session

open FileReport (symbolsOf)

variable {env : Environment} {main f : FileName} {es : List Event} {s : Session}
  {rep : SessionReport} {report : FileReport} {on : Reliance} {k : SymbolKey} {d : Declaration}
  {resolved : List ResolvedUse} {u : ResolvedUse} {c : Use × Verdict}

/-! ## What the session knows of a file -/

/-- A session after facts has all declarations, although it may refuse other facts. -/
theorem exists_recorded_declaredIn (env : Environment) (main : FileName) (es : List Event) :
    ∃ taken, Recorded env main taken ((start env main).afterFacts es) ∧
      ∀ f k d, DeclaredIn taken f k d ↔ DeclaredIn es f k d := by
  obtain ⟨taken, hrec, -, hmem⟩ := exists_recorded env main es
  exact ⟨taken, hrec, fun f k d => and_congr_left' (hmem (.declaration d) rfl)⟩

theorem mem_forwardsIn :
    d ∈ forwardsIn f es ↔ .declaration d ∈ es ∧ d.isForward = true ∧ d.file = f := by
  rw [forwardsIn, List.mem_filterMap]
  constructor
  · rintro ⟨e, he, hd⟩
    cases e with
    | declaration d' =>
      simp only [Event.forwardIn?, Option.ite_none_right_eq_some, Bool.and_eq_true,
        beq_iff_eq] at hd
      obtain ⟨hforward, hd⟩ := hd
      cases hd
      exact ⟨he, hforward⟩
    | _ => cases hd
  · rintro ⟨hd, hforward, hf⟩
    exact ⟨_, hd, by simp [Event.forwardIn?, hforward, hf]⟩

theorem Recorded.not_mem_declaredSymbols (hrec : Recorded env main es s) :
    k ∉ Plan.declaredSymbols (s.context on) (s.resolvedRecord f resolved) ↔
      ∀ d, DeclaredIn es f k d → d.isForward = false := by
  rw [hrec.declaredSymbols]
  simp only [List.mem_map, mem_forwardsIn, not_exists, not_and]
  refine forall_congr' fun d => ⟨fun h ⟨hd, hk, hf⟩ => ?_, fun h ⟨hd, hforward, hf⟩ hk => ?_⟩
  · exact Bool.eq_false_iff.2 fun hforward => h ⟨hd, hforward, hf⟩ hk
  · rw [h ⟨hd, hk, hf⟩] at hforward
    cases hforward

theorem Recorded.mem_banned (hrec : Recorded env main es s) :
    k.name ∈ (s.recordOf f).pragmas.noForwardDeclare ↔ BannedIn es f k := by
  rw [hrec.banned]
  constructor
  · rintro ⟨e, he, hb⟩
    unfold Event.bannedIn? at hb
    split at hb
    · simp only [Option.ite_none_right_eq_some, Option.some.injEq] at hb
      obtain ⟨rfl, hname⟩ := hb
      exact ⟨_, _, he, hname⟩
    · cases hb
  · rintro ⟨line, symbol, he, hname⟩
    exact ⟨_, he, by simp [Event.bannedIn?, hname]⟩

theorem Recorded.hasLocalDeclaration_iff (hrec : Recorded env main es s) :
    (s.context on).hasLocalDeclaration (s.resolvedRecord f resolved) u = true ↔
      DefinedLater es f u.use := by
  have hself : (s.resolvedRecord f resolved).file = f := hrec.file f
  have hhere : ∀ d, d ∈ (s.context on).declarationsIn (s.resolvedRecord f resolved).file
      u.use.symbol ↔ DeclaredIn es f u.use.symbol d := fun d => by
    rw [hself, hrec.mem_declarationsIn]
  simp only [DecisionContext.hasLocalDeclaration, Bool.and_eq_true, Bool.not_eq_true',
    List.isEmpty_eq_false_iff_exists_mem, List.all_eq_true, List.any_eq_true, List.mem_filter,
    decide_eq_true_eq, hhere]
  constructor
  · rintro ⟨⟨hdefined, hlater⟩, hdeclared⟩
    exact ⟨hdefined, fun d hd hdef => hlater d ⟨hd, hdef⟩, hdeclared⟩
  · rintro ⟨hdefined, hlater, hdeclared⟩
    exact ⟨⟨hdefined, fun d hd => hlater d hd.1 hd.2⟩, hdeclared⟩

/-! ## Lines that are added -/

/-- A line is added for each symbol for which a declaration is proposed, unless the file declares it
by hand. -/
theorem Reported.mem_add_iff (hrec : Recorded env main es s) (h : Reported s on f report) :
    k ∈ symbolsOf report.add ↔
      (∃ o ∈ report.uses, o.symbol = k ∧ o.status = .forwardDeclared) ∧
        ∀ d, DeclaredIn es f k d → d.isForward = false := by
  have hknown := fun o ho => find?_of_mem_uses h (o := o) ho
  obtain ⟨resolved, -, rfl⟩ := h
  rw [Plan.mem_symbolsOf_add, Plan.mem_forwardNeeded, hrec.not_mem_declaredSymbols]
  refine and_congr_right fun ⟨o, ho, hk, _⟩ => and_iff_left ?_
  rw [← hk]
  exact hknown o ho

theorem mem_add_iff (hs : (start env main).takeAll es = .ok s) (hr : s.finish.1 = .ok rep)
    (hreport : report ∈ rep.files) :
    k ∈ symbolsOf report.add ↔
      (∃ o ∈ report.uses, o.symbol = k ∧ o.status = .forwardDeclared) ∧
        ∀ d, DeclaredIn es report.file k d → d.isForward = false := by
  have hrec := recorded_of_takeAll hs
  obtain ⟨on, hreported⟩ := reported_of_mem hrec hr hreport
  exact hreported.mem_add_iff hrec

/-! ## What needs a declaration -/

theorem classify_of_classified {t : SymbolTable} {us : List Use}
    (hc : c ∈ classified env t us) : ∃ symbol, t.find? c.1.symbol = some symbol ∧
      classify env.policy env.oracle c.1 symbol = some c.2 := by
  obtain ⟨u, hu, h⟩ := List.mem_filterMap.1 hc
  obtain ⟨verdict, hv, rfl⟩ := Option.map_eq_some_iff.1 h
  exact Option.bind_eq_some_iff.1 hv

/-- A use that no ban makes strict is of a symbol that may be declared. -/
theorem declarable_of_strictKind (hrec : Recorded env main es s)
    (hc : c ∈ classified env s.table (usesIn f es)) (hu : Resolves c u)
    (h : (s.context on).strictKind (s.resolvedRecord f resolved) u = .forwardDeclarable) :
    Declarable env es f c.1.symbol := by
  obtain ⟨hpolicy, hpragma, hkind⟩ := DecisionContext.strictKind_eq_forwardDeclarable.1 h
  obtain ⟨symbol, hfind, hclassify⟩ := classify_of_classified hc
  rw [hu.2] at hkind
  rw [hu.1] at hpragma
  obtain ⟨hrecord, hsystem⟩ :=
    Classification.declarable_of_forwardDeclarable hclassify hkind
  rw [SymbolTable.key_of_find? hfind] at hrecord hsystem
  exact
  { kind := by
      revert hrecord
      cases c.1.symbol.kind <;> simp [SymbolKind.isForwardDeclarable]
    namespaces := by simpa using hsystem
    pragmas := fun hb => hpragma (hrec.mem_banned.2 hb)
    policy := hrec.environment ▸ hpolicy }

/-- A use waits for a declaration if its symbol may be declared, or if the file defines the symbol
later. -/
theorem declarable_or_definedLater (hrec : Recorded env main es s)
    (hc : c ∈ classified env s.table (usesIn f es)) (hu : Resolves c u)
    (h : ((s.context on).triage (s.resolvedRecord f resolved) u).course = .forward) :
    Declarable env es f c.1.symbol ∨ DefinedLater es f c.1 := by
  obtain ⟨-, -, hsource⟩ := DecisionContext.forward_cases h
  rcases hsource with hkind | hlocal
  · exact .inl (declarable_of_strictKind hrec hc hu hkind)
  · exact .inr (hu.1 ▸ hrec.hasLocalDeclaration_iff.1 hlocal)

/-- Each use that is not skipped has one outcome, in order. All lines that declare a symbol and are
added declare one that may be declared, exactly if no use of the file makes it declare another. -/
theorem declared_declarable_iff (hs : (start env main).takeAll es = .ok s)
    (hr : s.finish.1 = .ok rep) :
    ∀ report ∈ rep.files,
      List.Forall₂ Concerns (classified env s.table (usesIn report.file es)) report.uses ∧
      ((∀ l ∈ report.add, ∀ k, l.declared? = some k → Declarable env es report.file k) ↔
        List.Forall₂ (fun c o => ¬ Misdeclared env es report.file c.1 o)
          (classified env s.table (usesIn report.file es)) report.uses) := by
  have hrec := recorded_of_takeAll hs
  intro report hreport
  obtain ⟨on, hreported⟩ := reported_of_mem hrec hr hreport
  obtain ⟨resolved, -, hall⟩ := hreported.forall₂_decided
  rw [hrec.environment, hrec.uses] at hall
  refine ⟨hall.imp fun c o ⟨u, hu, slot, hd⟩ => concerns_of_decides hu hd, ?_, ?_⟩
  · intro hdeclarable
    refine (forall₂_mem hall).imp ?_
    rintro c o ⟨-, ho, u, hu, slot, hd⟩ hmis
    have hmem : c.1.symbol ∈ symbolsOf report.add :=
      (hreported.mem_add_iff hrec).2
        ⟨⟨o, ho, (concerns_of_decides hu hd).1, hmis.proposed⟩, hmis.unwritten⟩
    obtain ⟨l, hl, hk⟩ := List.mem_filterMap.1 hmem
    exact hmis.banned (hdeclarable l hl _ hk)
  · intro hnone l hl k hk
    obtain ⟨⟨o, ho, rfl, hstatus⟩, hunwritten⟩ :=
      (hreported.mem_add_iff hrec).1 (List.mem_filterMap.2 ⟨l, hl, hk⟩)
    obtain ⟨c, hc, ⟨u, hu, slot, hd⟩, hnot⟩ := forall₂_exists_left (forall₂_and hall hnone) o ho
    have hsymbol : o.symbol = c.1.symbol := (concerns_of_decides hu hd).1
    rw [hsymbol] at hunwritten ⊢
    rcases declarable_or_definedLater hrec hc hu (hd.forward_of_forwardDeclared hstatus).1 with
      hdeclarable | hlater
    · exact hdeclarable
    · exact Classical.not_not.1 fun hbanned => hnot ⟨hstatus, hlater, hunwritten, hbanned⟩

/-! ## A class and a function -/

/-- A source file that uses, by a pointer, a class which it reaches but does not include. -/
def pointerUser : List Event :=
  [ .directive ⟨.quoted "f.cc", .quoted "a.h", .line 1, none⟩,
    .directive ⟨.quoted "a.h", .quoted "c.h", .line 1, none⟩,
    .declaration { symbol := ⟨"S", .record⟩, location := .plain ⟨.quoted "c.h", 3, 1⟩
                   isDefinition := true },
    .use { symbol := ⟨"S", .record⟩, location := .plain ⟨.quoted "f.cc", 9, 1⟩
           hints := { pointerOrReference := true } } ]

/-- The file is told to declare the class, which may be declared. -/
theorem declarable_of_pointerUser :
    ∃ s rep, (start (plainEnvironment {}) (.quoted "f.cc")).takeAll pointerUser = .ok s ∧
      s.finish.1 = .ok rep ∧ (∃ report ∈ rep.files, ⟨"S", .record⟩ ∈ symbolsOf report.add) ∧
      ∀ report ∈ rep.files, ∀ l ∈ report.add, ∀ k, l.declared? = some k →
        Declarable (plainEnvironment {}) pointerUser report.file k := by
  have hdefinition : ∀ {f k d}, DeclaredIn pointerUser f k d → d.isDefinition = true := by
    rintro f k d ⟨hd, -, -⟩
    simp only [pointerUser, List.mem_cons, reduceCtorEq, false_or, Event.declaration.injEq,
      List.not_mem_nil, or_false] at hd
    rw [hd]
  obtain ⟨s, hs, h⟩ := exists_ok (p := fun s => s.finish.1.toOption.any fun rep =>
      rep.files.any fun report => report.uses.any fun o =>
        o.symbol == ⟨"S", .record⟩ && o.status == .forwardDeclared)
    (by decide +kernel : ((start (plainEnvironment {}) (.quoted "f.cc")).takeAll
      pointerUser).toOption.any _ = true)
  obtain ⟨rep, hr, h⟩ := exists_ok h
  simp only [List.any_eq_true, Bool.and_eq_true, beq_iff_eq] at h
  obtain ⟨report, hreport, hproposed⟩ := h
  refine ⟨s, rep, hs, hr, ⟨report, hreport, ?_⟩, fun report hreport => ?_⟩
  · refine (mem_add_iff hs hr hreport).2 ⟨hproposed, fun d hd => ?_⟩
    simp [Declaration.isForward, hdefinition hd]
  · obtain ⟨hall, hiff⟩ := declared_declarable_iff hs hr report hreport
    refine hiff.2 (hall.imp fun c o _ hmis => ?_)
    obtain ⟨d, hd, hnot, -⟩ := hmis.later.declared
    rw [hdefinition hd] at hnot
    cases hnot

/-- A source file that calls a function which it declares ahead of the call and defines after it. -/
def laterFunction : List Event :=
  [ .declaration { symbol := ⟨"g", .function⟩, location := .plain ⟨.quoted "f.cc", 1, 1⟩ },
    .use { symbol := ⟨"g", .function⟩, location := .plain ⟨.quoted "f.cc", 5, 1⟩ },
    .declaration { symbol := ⟨"g", .function⟩, location := .plain ⟨.quoted "f.cc", 9, 1⟩
                   isDefinition := true } ]

/-- The file is told to declare the function as if it were a class. -/
theorem misdeclared_laterFunction :
    ∃ s rep, (start (plainEnvironment {}) (.quoted "f.cc")).takeAll laterFunction = .ok s ∧
      s.finish.1 = .ok rep ∧ ∃ report ∈ rep.files, ∃ l ∈ report.add, ∃ k, l.declared? = some k ∧
        ¬ Declarable (plainEnvironment {}) laterFunction report.file k := by
  obtain ⟨s, hs, h⟩ := exists_ok (p := fun s => s.finish.1.toOption.any fun rep =>
      rep.files.any fun report => report.uses.any fun o =>
        o.symbol == ⟨"g", .function⟩ && o.status == .forwardDeclared)
    (by decide +kernel : ((start (plainEnvironment {}) (.quoted "f.cc")).takeAll
      laterFunction).toOption.any _ = true)
  obtain ⟨rep, hr, h⟩ := exists_ok h
  simp only [List.any_eq_true, Bool.and_eq_true, beq_iff_eq] at h
  obtain ⟨report, hreport, hproposed⟩ := h
  have hadd : ⟨"g", .function⟩ ∈ symbolsOf report.add := by
    refine (mem_add_iff hs hr hreport).2 ⟨hproposed, fun d ⟨_, hk, _⟩ => ?_⟩
    simp [Declaration.isForward, hk, SymbolKind.isForwardDeclarable]
  obtain ⟨l, hl, hk⟩ := List.mem_filterMap.1 hadd
  exact ⟨s, rep, hs, hr, report, hreport, l, hl, _, hk, fun hdeclarable =>
    absurd hdeclarable.kind (by decide)⟩

end Session

end IncludeAudit
