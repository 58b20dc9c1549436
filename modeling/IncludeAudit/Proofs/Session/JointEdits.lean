import IncludeAudit.Proofs.Session.Backing
import IncludeAudit.Proofs.Session.Declaring

/-!
# What the edits of two files do together

A use in the main file may be satisfied by a declaration that an associated header has. Whether the
declaration is there is asked of the header as it is, while the report of the header may remove it.
`keepsDeclaration_iff_of_reliesOn` says when it stays: exactly if the header needs it for a use of
its own.
-/

namespace IncludeAudit

/-- The report leaves one of the lines in its file that declare the symbol by hand. -/
def KeepsDeclaration (es : List Event) (report : FileReport) (k : SymbolKey) : Prop :=
  report.remove.countP (·.declared? == some k) < (forwardsIn report.file es).countP (·.symbol == k)

namespace Session

open FileReport (symbolsOf)

variable {env : Environment} {main f : FileName} {es : List Event} {s : Session}
  {rep : SessionReport} {report : FileReport} {on : Reliance} {k : SymbolKey}

/-- A use that the include of an associated header satisfies, although the header only declares the
symbol by hand. -/
structure ReliesOn (s : Session) (es : List Event) (o : UseOutcome) (header : FileName) : Prop where
  kind : o.kind = .forwardDeclarable
  status : o.status = .included header
  associated : header ∈ s.associatedHeaders
  declared : ∃ d, DeclaredIn es header o.symbol d
  byHand : ∀ d, DeclaredIn es header o.symbol d → d.isForward = true

theorem keepsDeclaration_iff_count : KeepsDeclaration es report k ↔
    (symbolsOf report.remove).count k < ((forwardsIn report.file es).map (·.symbol)).count k := by
  rw [KeepsDeclaration, FileReport.symbolsOf, List.count_filterMap, List.count, List.countP_map]
  rfl

/-- A file keeps a declaration that it has exactly if one is proposed for a use of its own. -/
theorem Reported.keepsDeclaration_iff (hrec : Recorded env main es s) (h : Reported s on f report)
    (hk : k ∈ (forwardsIn f es).map (·.symbol)) :
    KeepsDeclaration es report k ↔
      ∃ o ∈ report.uses, o.symbol = k ∧ o.status = .forwardDeclared := by
  rw [keepsDeclaration_iff_count, h.file, hrec.file]
  obtain ⟨resolved, -, rfl⟩ := h
  rw [← hrec.declaredSymbols] at hk ⊢
  rw [Plan.count_symbolsOf_remove_lt, Plan.mem_forwardNeeded]
  exact and_iff_right hk

/-- Each associated header has a report. -/
theorem exists_report_of_associated {mainReport : FileReport} {associated extra : List FileReport}
    (hrec : Recorded env main es s) (h : Reports s rep.files mainReport associated extra)
    (hf : f ∈ s.associatedHeaders) : ∃ own ∈ rep.files, own.file = f := by
  obtain ⟨own, hown, hreported⟩ := forall₂_exists_right h.associated f hf
  refine ⟨own, ?_, hreported.file.trans (hrec.file f)⟩
  rw [h.files]
  exact List.mem_append_left _ (List.mem_cons_of_mem _ hown)

/-- If the main file relies on a declaration in an associated header, the report of the header
leaves one in place exactly if one is proposed for a use of the header itself. -/
theorem keepsDeclaration_iff_of_reliesOn (hs : (start env main).takeAll es = .ok s)
    (hr : s.finish.1 = .ok rep) :
    ∀ mainReport ∈ rep.mainReport?, ∀ o ∈ mainReport.uses, ∀ header, ReliesOn s es o header →
      (∃ own ∈ rep.files, own.file = header) ∧ ∀ own ∈ rep.files, own.file = header →
        (KeepsDeclaration es own o.symbol ↔
          ∃ o' ∈ own.uses, o'.symbol = o.symbol ∧ o'.status = .forwardDeclared) := by
  have hrec := recorded_of_takeAll hs
  obtain ⟨-, mainReport, associated, extra, h⟩ := finish_ok hr hrec.resolved
  intro _ _ o _ header hrelies
  refine ⟨exists_report_of_associated hrec h hrelies.associated, ?_⟩
  rintro own hown rfl
  obtain ⟨on, hreported⟩ := reported_of_mem hrec hr hown
  obtain ⟨d, hd⟩ := hrelies.declared
  refine hreported.keepsDeclaration_iff hrec (List.mem_map.2 ⟨d, mem_forwardsIn.2 ?_, hd.2.1⟩)
  exact ⟨hd.1, hrelies.byHand d hd, hd.2.2⟩

/-! ## A header that declares a class for its source file -/

/-- A source file that uses a class by a pointer, and its header, which declares the class and, if
asked to, uses it as well. -/
def declaringHeader (usesItself : Bool) : List Event :=
  [ .directive ⟨.quoted "f.cc", .quoted "f.h", .line 1, none⟩,
    .declaration { symbol := ⟨"S", .record⟩, location := .plain ⟨.quoted "f.h", 3, 1⟩ },
    .use { symbol := ⟨"S", .record⟩, location := .plain ⟨.quoted "f.cc", 9, 1⟩
           hints := { pointerOrReference := true } } ] ++
  if usesItself then
    [ .use { symbol := ⟨"S", .record⟩, location := .plain ⟨.quoted "f.h", 4, 1⟩
             hints := { pointerOrReference := true } } ]
  else []

theorem declaredIn_declaringHeader {usesItself : Bool} {d : Declaration} :
    DeclaredIn (declaringHeader usesItself) (.quoted "f.h") ⟨"S", .record⟩ d ↔
      d = { symbol := ⟨"S", .record⟩, location := .plain ⟨.quoted "f.h", 3, 1⟩ } := by
  constructor
  · rintro ⟨hd, -, -⟩
    cases usesItself <;> simpa [declaringHeader] using hd
  · rintro rfl
    exact ⟨by simp [declaringHeader], rfl, rfl⟩

/-- The source file relies on the declaration, and the header needs it exactly if it uses the class.
-/
theorem exists_reliesOn (usesItself : Bool) :
    ∃ s rep, (start (plainEnvironment {}) (.quoted "f.cc")).takeAll (declaringHeader usesItself) =
        .ok s ∧ s.finish.1 = .ok rep ∧
      (∃ mainReport ∈ rep.mainReport?, ∃ o ∈ mainReport.uses, o.symbol = ⟨"S", .record⟩ ∧
        ReliesOn s (declaringHeader usesItself) o (.quoted "f.h")) ∧
      ∃ own ∈ rep.files, own.file = .quoted "f.h" ∧
        ((∃ o ∈ own.uses, o.symbol = ⟨"S", .record⟩ ∧ o.status = .forwardDeclared) ↔
          usesItself = true) := by
  obtain ⟨s, hs, h⟩ := exists_ok (p := fun s => s.associatedHeaders.contains (.quoted "f.h") &&
      s.finish.1.toOption.any fun rep => (rep.mainReport?.any fun mainReport =>
        mainReport.uses.any fun o => o.symbol == ⟨"S", .record⟩ && o.kind == .forwardDeclarable &&
          o.status == .included (.quoted "f.h")) &&
        rep.files.any fun own => own.file == .quoted "f.h" && (own.uses.any fun o =>
          o.symbol == ⟨"S", .record⟩ && o.status == .forwardDeclared) == usesItself)
    (by cases usesItself <;> decide +kernel : ((start (plainEnvironment {})
      (.quoted "f.cc")).takeAll (declaringHeader usesItself)).toOption.any _ = true)
  obtain ⟨hassociated, h⟩ := Bool.and_eq_true_iff.1 h
  obtain ⟨rep, hr, h⟩ := exists_ok h
  simp only [Bool.and_eq_true, Option.any_eq_true, List.any_eq_true, beq_iff_eq] at h
  obtain ⟨⟨mainReport, hmain, o, ho, ⟨hsymbol, hkind⟩, hstatus⟩, own, hown, hfile, huses⟩ := h
  refine ⟨s, rep, hs, hr, ⟨mainReport, hmain, o, ho, hsymbol, ?_⟩, own, hown, hfile, ?_⟩
  · exact
    { kind := hkind
      status := hstatus
      associated := by simpa using hassociated
      declared := ⟨_, hsymbol ▸ declaredIn_declaringHeader.2 rfl⟩
      byHand := fun d hd => by
        rw [hsymbol, declaredIn_declaringHeader] at hd
        rw [hd]
        decide }
  · rw [← huses, List.any_eq_true]
    simp only [Bool.and_eq_true, beq_iff_eq]

/-- A header that uses the class keeps its declaration. -/
theorem keepsDeclaration_of_declaringHeader :
    ∃ s rep, (start (plainEnvironment {}) (.quoted "f.cc")).takeAll (declaringHeader true) = .ok s ∧
      s.finish.1 = .ok rep ∧ ∃ mainReport ∈ rep.mainReport?, ∃ o ∈ mainReport.uses, ∃ header,
        ReliesOn s (declaringHeader true) o header ∧ ∃ own ∈ rep.files, own.file = header ∧
          KeepsDeclaration (declaringHeader true) own o.symbol := by
  obtain ⟨s, rep, hs, hr, ⟨mainReport, hmain, o, ho, hsymbol, hrelies⟩, own, hown, hfile, hneeds⟩ :=
    exists_reliesOn true
  refine ⟨s, rep, hs, hr, mainReport, hmain, o, ho, _, hrelies, own, hown, hfile, ?_⟩
  obtain ⟨-, hiff⟩ := keepsDeclaration_iff_of_reliesOn hs hr mainReport hmain o ho _ hrelies
  rw [hiff own hown hfile, hsymbol]
  exact hneeds.2 rfl

/-- A header that does not use it loses it, although the source file relies on it. -/
theorem declaringHeader_loses_declaration :
    ∃ s rep,
      (start (plainEnvironment {}) (.quoted "f.cc")).takeAll (declaringHeader false) = .ok s ∧
      s.finish.1 = .ok rep ∧ ∃ mainReport ∈ rep.mainReport?, ∃ o ∈ mainReport.uses, ∃ header,
        ReliesOn s (declaringHeader false) o header ∧ ∃ own ∈ rep.files, own.file = header ∧
          ¬ KeepsDeclaration (declaringHeader false) own o.symbol := by
  obtain ⟨s, rep, hs, hr, ⟨mainReport, hmain, o, ho, hsymbol, hrelies⟩, own, hown, hfile, hneeds⟩ :=
    exists_reliesOn false
  refine ⟨s, rep, hs, hr, mainReport, hmain, o, ho, _, hrelies, own, hown, hfile, ?_⟩
  obtain ⟨on, hreported⟩ := reported_of_mem (recorded_of_takeAll hs) hr hown
  rw [hreported.keepsDeclaration_iff (recorded_of_takeAll hs), hsymbol, hneeds]
  · decide
  · rw [hfile, hsymbol]
    decide

end Session

end IncludeAudit
