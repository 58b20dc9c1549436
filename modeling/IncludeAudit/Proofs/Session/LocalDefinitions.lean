import IncludeAudit.Proofs.Session.Reporting

/-!
# Uses that the file defines itself

A use is dropped if the file counts as defining its symbol. It counts so if the use is attributed to
it, for whatever reason, or if it has any definition of the symbol, of whatever specialization and
in whatever form; so a use may be dropped that no definition in the file serves (`Served`).
`definedInFile_served_iff` says exactly when this happens.

* `status_definedInFile_iff`: which uses are dropped;
* `Recorded.mem_declarationsIn`: the declarations in a file.
-/

namespace IncludeAudit

/-- A fact declares the symbol in the file. -/
def DeclaredIn (es : List Event) (f : FileName) (k : SymbolKey) (d : Declaration) : Prop :=
  .declaration d ∈ es ∧ d.symbol = k ∧ d.file = f

/-- The file has a definition that serves a use: that of the specialization which the use names, or
the unspecialized one. An explicit instantiation is none. -/
def Served (es : List Event) (f : FileName) (u : Use) : Prop :=
  ∃ d, DeclaredIn es f u.symbol d ∧ d.isDefinition = true ∧ d.instantiation = none ∧
    (d.specialization = u.specialization ∨ d.specialization = none)

theorem Plan.Decides.status_definedInFile_iff {ctx : DecisionContext} {r : FileRecord}
    {u : ResolvedUse} {o : UseOutcome} {slot : Slot} (h : Plan.Decides ctx r u slot o) :
    o.status = .ignored .definedInFile ↔
      (ctx.triage r u).course = .settled (.ignored .definedInFile) := by
  rw [h.outcome]
  simp only [Plan.outcomeOf, Plan.status]
  cases (ctx.triage r u).course with
  | settled status => simp
  | need candidates =>
    simp only [reduceCtorEq, iff_false]
    unfold Plan.needStatus
    split <;> simp
  | forward =>
    simp only [reduceCtorEq, iff_false]
    unfold Plan.forwardStatus
    split
    · simp
    · split <;> simp

namespace Session

variable {env : Environment} {main f : FileName} {es : List Event} {s : Session}
  {rep : SessionReport} {on : Reliance} {k : SymbolKey} {d : Declaration}

/-- True of a symbol that every compiler knows. -/
def isBuiltin (s : Session) (k : SymbolKey) : Bool :=
  (s.table.find? k).any (·.traits.isBuiltin)

/-- The file counts as defining the symbol of a use: the use is attributed to it, or to another file
while it has some definition of the symbol. -/
def TakenAsDefined (s : Session) (es : List Event) (f : FileName) (o : UseOutcome) : Prop :=
  s.isBuiltin o.symbol = false ∧ (o.attributed = some f ∨
    o.attributed.isSome = true ∧ ∃ d, DeclaredIn es f o.symbol d ∧ d.isDefinition = true)

theorem Recorded.mem_declarationsIn (hrec : Recorded env main es s) :
    d ∈ (s.context on).declarationsIn f k ↔ DeclaredIn es f k d := by
  have hevents : d ∈ s.table.declarations ↔ .declaration d ∈ es := by
    rw [hrec.declarations, List.mem_filterMap]
    constructor
    · rintro ⟨e, he, hd⟩
      cases e <;> cases hd
      exact he
    · exact fun h => ⟨_, h, rfl⟩
  rw [DecisionContext.declarationsIn, List.mem_filter, SymbolTable.mem_candidates, beq_iff_eq, and_assoc]
  exact and_congr_left' hevents

/-- A use is dropped because of a definition exactly if it needs one and the file counts as defining
its symbol. -/
theorem dropped_iff {resolved : List ResolvedUse} {u : ResolvedUse} {slot : Slot} {o : UseOutcome}
    (hrec : Recorded env main es s)
    (hd : Plan.Decides (s.context on) (s.resolvedRecord f resolved) u slot o)
    (hsymbol : (s.table.find? u.use.symbol).isSome = true) :
    o.status = .ignored .definedInFile ↔ o.kind = .full ∧ s.TakenAsDefined es f o := by
  have hself : (s.resolvedRecord f resolved).file = f := hrec.file f
  obtain ⟨symbol, hfind⟩ := Option.isSome_iff_exists.1 hsymbol
  have hfind' : (s.context on).table.find? u.use.symbol = some symbol := hfind
  rw [hd.status_definedInFile_iff, DecisionContext.settled_definedInFile_iff, hd.outcome]
  simp only [DecisionContext.fullIgnored?_eq_definedInFile, DecisionContext.definesSymbol, hfind',
    hself, hrec.mem_declarationsIn, TakenAsDefined, isBuiltin, Plan.outcomeOf, hfind]
  refine and_congr_right fun _ => ?_
  cases u.attribution with
  | none => simp
  | some a => simp [SymbolTable.key_of_find? hfind]

/-- An outcome that drops a use because of a definition in the file has one that serves the use,
unless the file only counts as defining the symbol. -/
theorem definedInFile_served_iff (hs : (start env main).takeAll es = .ok s)
    (hr : s.finish.1 = .ok rep) :
    ∀ report ∈ rep.files,
      List.Forall₂ (fun c o => Concerns c o ∧
          ((o.status = .ignored .definedInFile → Served es report.file c.1) ↔
            ¬ (o.kind = .full ∧ s.TakenAsDefined es report.file o ∧
              ¬ Served es report.file c.1)))
        (classified env s.table (usesIn report.file es)) report.uses := by
  have hrec := recorded_of_takeAll hs
  obtain ⟨-, mainReport, associated, extra, h⟩ := finish_ok hr hrec.resolved
  intro report hreport
  obtain ⟨on, f, hreported, -⟩ := h.exists_reported report hreport
  obtain ⟨resolved, -, hall⟩ := hreported.forall₂_decided
  have hfile : report.file = f := hreported.file.trans (hrec.file f)
  rw [hrec.environment, hrec.uses] at hall
  rw [hfile]
  refine (List.forall₂_and_left _ _ |>.2 ⟨fun c hc => hc, hall⟩).imp ?_
  rintro c o ⟨hc, u, hu, slot, hd⟩
  refine ⟨concerns_of_decides hu hd, ?_⟩
  rw [dropped_iff hrec hd (hu.1 ▸ (find?_of_classified hc).2)]
  simp only [not_and, Classical.not_not, and_imp]

/-! ## A file with a specialization -/

/-- The specialization of a template for `int`. -/
def intSpecialization : Declaration where
  symbol := ⟨"S", .recordTemplate⟩
  location := .plain ⟨.quoted "f.cc", 5, 1⟩
  isDefinition := true
  specialization := some "int"

/-- A use of the specialization of the template for the given arguments. -/
def specializationUse (args : String) : Use where
  symbol := ⟨"S", .recordTemplate⟩
  location := .plain ⟨.quoted "f.cc", 9, 1⟩
  hints := { memberAccess := true }
  specialization := some args

/-- A source file that specializes the template of a header for `int` and uses a specialization. -/
def specializer (args : String) : List Event :=
  [ .directive ⟨.quoted "f.cc", .quoted "s.h", .line 1, none⟩,
    .declaration { symbol := ⟨"S", .recordTemplate⟩, location := .plain ⟨.quoted "s.h", 3, 1⟩
                   isDefinition := true },
    .declaration intSpecialization,
    .use (specializationUse args) ]

/-- The specialization in the file serves the uses that name it. -/
theorem served_in_specializer :
    ∃ s rep, (start (plainEnvironment {}) (.quoted "f.cc")).takeAll (specializer "int") = .ok s ∧
      s.finish.1 = .ok rep ∧ ∀ report ∈ rep.files,
        List.Forall₂ (fun c o => o.status = .ignored .definedInFile →
            Served (specializer "int") report.file c.1)
          (classified (plainEnvironment {}) s.table (usesIn report.file (specializer "int")))
          report.uses := by
  obtain ⟨s, hs, h⟩ := exists_ok (p := fun s => s.finish.1.toOption.any fun _ => true)
    (by decide +kernel : ((start (plainEnvironment {}) (.quoted "f.cc")).takeAll
      (specializer "int")).toOption.any _ = true)
  obtain ⟨rep, hr, -⟩ := exists_ok h
  refine ⟨s, rep, hs, hr, fun report hreport => ?_⟩
  refine ((List.forall₂_and_left _ _).2 ⟨fun c hc => hc,
    definedInFile_served_iff hs hr report hreport⟩).imp ?_
  rintro c o ⟨hc, -, hiff⟩
  refine hiff.2 fun ⟨_, _, hserved⟩ => hserved ?_
  obtain ⟨e, he, hu⟩ := List.mem_filterMap.1 (find?_of_classified hc).1
  have huse : c.1 = specializationUse "int" ∧ report.file = .quoted "f.cc" := by
    simp only [specializer, List.mem_cons, List.not_mem_nil, or_false] at he
    rcases he with rfl | rfl | rfl | rfl <;> simp only [Event.useIn?, reduceCtorEq] at hu
    split at hu <;> simp_all [specializationUse, Location.plain]
  rw [huse.1, huse.2]
  exact ⟨intSpecialization, ⟨by simp [specializer], rfl, rfl⟩, rfl, rfl, .inl rfl⟩

/-- It serves no other, but they are dropped as well. -/
theorem unserved_in_specializer :
    ∃ s rep, (start (plainEnvironment {}) (.quoted "f.cc")).takeAll (specializer "char") = .ok s ∧
      s.finish.1 = .ok rep ∧ ∃ report ∈ rep.files, ∃ o ∈ report.uses,
        o.status = .ignored .definedInFile ∧
          ¬ Served (specializer "char") report.file (specializationUse "char") := by
  obtain ⟨s, hs, h⟩ := exists_ok (p := fun s => s.finish.1.toOption.any fun rep =>
      rep.files.any fun report => report.file == .quoted "f.cc" && report.uses.any fun o =>
        o.status == .ignored .definedInFile)
    (by decide +kernel : ((start (plainEnvironment {}) (.quoted "f.cc")).takeAll
      (specializer "char")).toOption.any _ = true)
  obtain ⟨rep, hr, h⟩ := exists_ok h
  simp only [List.any_eq_true, Bool.and_eq_true, beq_iff_eq] at h
  obtain ⟨report, hreport, hfile, o, ho, hstatus⟩ := h
  refine ⟨s, rep, hs, hr, report, hreport, o, ho, hstatus, ?_⟩
  rw [hfile]
  rintro ⟨d, ⟨hd, -, hf⟩, -, -, hspec⟩
  simp only [specializer, List.mem_cons, reduceCtorEq, false_or, Event.declaration.injEq,
    List.not_mem_nil, or_false] at hd
  rcases hd with rfl | rfl
  · exact absurd hf (by decide)
  · exact absurd hspec (by decide)

end Session

end IncludeAudit
