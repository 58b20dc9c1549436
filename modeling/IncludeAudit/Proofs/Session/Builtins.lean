import IncludeAudit.Proofs.Decision.Additions
import IncludeAudit.Proofs.Decision.Requirements
import IncludeAudit.Proofs.Session.CyclePolicy
import IncludeAudit.Proofs.Session.Declaring

/-!
# Symbols that every compiler knows

A use of the definition of a builtin is dropped if it is attributed to a file. A use that nothing
declares and a use that a declaration satisfies are not asked whether their symbol is a builtin, so
they may cause a line or a warning (`Demands`). `builtin_needsNothing_iff` says that no other use of
a builtin does.

* `not_servedBy_of_builtin`: no include serves an attributed use of a builtin;
* `aboutUses_of_finish`, `Reported.aboutUses_perm`: the warnings of a session.
-/

namespace IncludeAudit

open DiagnosticLog (aboutUses withCode_eq_nil)

/-- No include serves a use of a builtin that is attributed to a file. -/
theorem Plan.Decides.not_servedBy_of_builtin {ctx : DecisionContext} {r : FileRecord}
    {u : ResolvedUse} {slot : Slot} {o : UseOutcome} {x : FileName} (h : Decides ctx r u slot o)
    (hbuiltin : (ctx.table.find? o.symbol).any (·.traits.isBuiltin) = true)
    (hattributed : o.attributed ≠ none) : ¬ ServedBy o x := by
  intro hserved
  obtain ⟨a, ha⟩ := Option.ne_none_iff_exists'.1 hattributed
  obtain ⟨s, hs, htrait⟩ := (Option.any_eq_true _ _).1 hbuiltin
  rcases (h.asksFile_of_servedBy hserved).2 with hnone | ⟨-, hkept⟩
  · exact hattributed hnone
  · exact hkept ⟨a, s, ha, hs, .inl htrait⟩

namespace Session

open FileReport (symbolsOf)
open Plan (ServedBy)

variable {env : Environment} {main f : FileName} {es : List Event} {s : Session}
  {rep : SessionReport} {report : FileReport} {on : Reliance} {o : UseOutcome} {k : SymbolKey}

/-- The warning that a use in a file gives. -/
def warning? (s : Session) (f : FileName) (o : UseOutcome) : Option Diagnostic :=
  o.warning? f (s.recordOf f).present

/-- No line is added to the file because of the symbol, and no use of it gives a warning. -/
structure NeedsNothing (s : Session) (report : FileReport) (k : SymbolKey) : Prop where
  undeclared : k ∉ symbolsOf report.add
  unlisted : ∀ l ∈ report.add, ∀ x, l.included? = some x → k ∉ l.symbols
  unwarned : ∀ o ∈ report.uses, o.symbol = k → s.warning? report.file o = none

/-- The use causes a warning or a line although it may be one of a builtin: nothing declares its
symbol, or it is left to a declaration that the file does not have. -/
inductive Demands (s : Session) (es : List Event) (f : FileName) (o : UseOutcome) : Prop where
  | unknown (ha : o.attributed = none) (hs : o.status = .noDeclaration)
  | named (ha : o.attributed = none) {x : FileName} (hs : o.status = .included x)
    (hx : x ∉ (s.recordOf f).present)
  | declared (hs : o.status = .forwardDeclared)
    (hd : ∀ d, DeclaredIn es f o.symbol d → d.isForward = false)

/-! ## The warnings of a session -/

/-- No diagnostic outside the reports is about a use. -/
theorem aboutUses_of_finish (env : Environment) (main : FileName) (es : List Event)
    (hr : ((start env main).afterFacts es).finish.1 = .ok rep) : aboutUses rep.diagnostics = [] := by
  refine List.append_eq_nil_iff.2 ⟨withCode_eq_nil.2 fun d hd => ?_,
    withCode_eq_nil.2 fun d hd => ?_⟩ <;>
  rcases code_of_mem_finish env main es hr d hd with (hcode | hcode) | hcode <;> simp [hcode]

/-- The warnings of a report are those of its uses. -/
theorem Reported.aboutUses_perm (h : Reported s on f report) (hfile : (s.recordOf f).file = f) :
    (aboutUses report.diagnostics).Perm (report.uses.filterMap (s.warning? report.file)) := by
  obtain ⟨resolved, -, rfl⟩ := h
  have hperm := Plan.aboutUses_log_perm (s.context on) (s.resolvedRecord f resolved)
  have hself : (s.resolvedRecord f resolved).file = f := hfile
  have hpresent : (s.resolvedRecord f resolved).present = (s.recordOf f).present := rfl
  rw [hself, hpresent] at hperm
  have hreport : ((Plan.make (s.context on) (s.resolvedRecord f resolved)).report (s.context on)
      (s.resolvedRecord f resolved)).file = f := hfile
  rw [hreport]
  exact hperm

/-! ## Uses that demand something -/

/-- A use of a builtin that gives a warning, or that an absent include serves, is one of a symbol
that nothing declares. -/
theorem demands_of_servedBy {resolved : List ResolvedUse} {u : ResolvedUse} {slot : Slot}
    {x : FileName} (hd : Plan.Decides (s.context on) (s.resolvedRecord f resolved) u slot o)
    (hbuiltin : s.isBuiltin o.symbol = true) (hserved : ServedBy o x)
    (habsent : x ∉ (s.recordOf f).present) : s.Demands es f o := by
  by_cases hattributed : o.attributed = none
  · exact .named hattributed hserved.1 habsent
  · exact absurd hserved (hd.not_servedBy_of_builtin hbuiltin hattributed)

theorem demands_of_warning {resolved : List ResolvedUse} {u : ResolvedUse} {slot : Slot}
    (hd : Plan.Decides (s.context on) (s.resolvedRecord f resolved) u slot o)
    (hbuiltin : s.isBuiltin o.symbol = true) (hwarned : s.warning? f o ≠ none) :
    s.Demands es f o := by
  rcases UseOutcome.warning?_ne_none.1 hwarned with hstatus | ⟨x, hstatus, hfull, hmissing⟩
  · exact .unknown (hd.unattributed_of_noDeclaration hstatus) hstatus
  · exact demands_of_servedBy hd hbuiltin ⟨hstatus, .inl hfull⟩ hmissing

/-- Nothing is added or said because of a builtin exactly if no use of it in the file is one of a
symbol that nothing declares, or left to a declaration that the file does not have. -/
theorem Reported.needsNothing_iff {taken : List Event} (hrec : Recorded env main taken s)
    (htaken : ∀ f k d, DeclaredIn taken f k d ↔ DeclaredIn es f k d)
    (h : Reported s on f report) (hbuiltin : s.isBuiltin k = true) :
    s.NeedsNothing report k ↔ ∀ o ∈ report.uses, o.symbol = k → ¬ s.Demands es f o := by
  have hfile : report.file = f := h.file.trans (hrec.file f)
  have hadded := h.mem_add_iff (k := k) hrec
  simp only [htaken] at hadded
  obtain ⟨resolved, hreport, hall⟩ := h.forall₂_decided
  have hlisted (x : FileName) : (∃ l ∈ report.add, l.included? = some x ∧ k ∈ l.symbols) ↔
      x ∉ (s.recordOf f).present ∧ ∃ o ∈ report.uses, o.symbol = k ∧ ServedBy o x := by
    rw [hreport]
    exact Plan.exists_added_symbol
  constructor
  · rintro hneeds o ho rfl hdemands
    cases hdemands with
    | unknown _ hs =>
      exact UseOutcome.warning?_ne_none.2 (.inl hs) (hneeds.unwarned o ho rfl)
    | named ha hs hx =>
      obtain ⟨l, hl, hincluded, hk⟩ := (hlisted _).2 ⟨hx, o, ho, rfl, hs, .inr ha⟩
      exact hneeds.unlisted l hl _ hincluded hk
    | declared hs hd => exact hneeds.undeclared (hadded.2 ⟨⟨o, ho, rfl, hs⟩, hd⟩)
  · intro hnone
    refine ⟨fun hk => ?_, fun l hl x hx hk => ?_, ?_⟩
    · obtain ⟨⟨o, ho, rfl, hs⟩, hunwritten⟩ := hadded.1 hk
      exact hnone o ho rfl (.declared hs hunwritten)
    · obtain ⟨habsent, o, ho, rfl, hserved⟩ := (hlisted x).1 ⟨l, hl, hx, hk⟩
      obtain ⟨-, -, u, -, slot, hd⟩ := forall₂_exists_left hall o ho
      exact hnone o ho rfl (demands_of_servedBy hd hbuiltin hserved habsent)
    · rintro o ho rfl
      obtain ⟨-, -, u, -, slot, hd⟩ := forall₂_exists_left hall o ho
      by_contra hwarned
      rw [hfile] at hwarned
      exact hnone o ho rfl (demands_of_warning hd hbuiltin hwarned)

/-- The warnings of a session are those of the uses in its reports. Each builtin needs nothing in a
file unless one of its uses there is one of a symbol that nothing declares, or is left to a
declaration that the file does not have. -/
theorem builtin_needsNothing_iff (env : Environment) (main : FileName) (es : List Event)
    (hr : ((start env main).afterFacts es).finish.1 = .ok rep) :
    aboutUses rep.diagnostics = [] ∧ ∀ report ∈ rep.files,
      (aboutUses report.diagnostics).Perm
        (report.uses.filterMap (((start env main).afterFacts es).warning? report.file)) ∧
      ∀ k, ((start env main).afterFacts es).isBuiltin k = true →
        (((start env main).afterFacts es).NeedsNothing report k ↔
          ∀ o ∈ report.uses, o.symbol = k →
            ¬ ((start env main).afterFacts es).Demands es report.file o) := by
  refine ⟨aboutUses_of_finish env main es hr, ?_⟩
  obtain ⟨taken, hrec, htaken⟩ := exists_recorded_declaredIn env main es
  generalize (start env main).afterFacts es = s at hrec hr
  intro report hreport
  obtain ⟨on, hreported⟩ := reported_of_mem hrec hr hreport
  exact ⟨hreported.aboutUses_perm (hrec.file _), fun k => hreported.needsNothing_iff hrec htaken⟩

/-! ## A function and a class -/

/-- A function that every compiler knows. -/
def builtinFunction : SymbolKey :=
  ⟨"__builtin_expect", .function⟩

/-- A class that every compiler knows. -/
def builtinClass : SymbolKey :=
  ⟨"__builtin_va_list", .record⟩

/-- A source file that uses the function. -/
def builtinCaller : List Event :=
  [ .traits builtinFunction { isBuiltin := true },
    .use { symbol := builtinFunction, location := .plain ⟨.quoted "f.cc", 8, 1⟩ } ]

/-- A declaration of the function in a header that the source file does not include. -/
def builtinHeader : Event :=
  .declaration { symbol := builtinFunction, location := .plain ⟨.quoted "b.h", 1, 1⟩ }

/-- A source file that names the class by a pointer. -/
def builtinNamer : List Event :=
  [ .traits builtinClass { isBuiltin := true },
    .declaration { symbol := builtinClass, location := .plain ⟨.angled "built-in", 1, 1⟩
                   isDefinition := true },
    .use { symbol := builtinClass, location := .plain ⟨.quoted "f.cc", 9, 1⟩
           hints := { pointerOrReference := true } } ]

/-- A function that is declared needs nothing. -/
theorem needsNothing_of_builtinHeader :
    ∃ rep, ((start (plainEnvironment {}) (.quoted "f.cc")).afterFacts
        (builtinHeader :: builtinCaller)).finish.1 = .ok rep ∧
      ((start (plainEnvironment {}) (.quoted "f.cc")).afterFacts
        (builtinHeader :: builtinCaller)).isBuiltin builtinFunction = true ∧
      ∃ report ∈ rep.files, (∃ o ∈ report.uses, o.symbol = builtinFunction) ∧
        ((start (plainEnvironment {}) (.quoted "f.cc")).afterFacts
          (builtinHeader :: builtinCaller)).NeedsNothing report builtinFunction := by
  obtain ⟨rep, hr, h⟩ := exists_ok (p := fun rep =>
      ((start (plainEnvironment {}) (.quoted "f.cc")).afterFacts
        (builtinHeader :: builtinCaller)).isBuiltin builtinFunction &&
      rep.files.any fun report => (report.uses.any fun o => o.symbol == builtinFunction) &&
        report.uses.all fun o => o.status == .ignored .builtin)
    (by decide +kernel : ((start (plainEnvironment {}) (.quoted "f.cc")).afterFacts
      (builtinHeader :: builtinCaller)).finish.1.toOption.any _ = true)
  simp only [Bool.and_eq_true, List.any_eq_true, List.all_eq_true, beq_iff_eq] at h
  obtain ⟨hbuiltin, report, hreport, hused, hignored⟩ := h
  refine ⟨rep, hr, hbuiltin, report, hreport, hused,
    (((builtin_needsNothing_iff _ _ _ hr).2 report hreport).2 _ hbuiltin).2 ?_⟩
  intro o ho _ hdemands
  have hstatus := hignored o ho
  cases hdemands with
  | unknown _ hs => rw [hs] at hstatus; cases hstatus
  | named _ hs => rw [hs] at hstatus; cases hstatus
  | declared hs => rw [hs] at hstatus; cases hstatus

/-- A function that nothing declares gives a warning, and the class gets a declaration. -/
theorem demands_of_builtins :
    ∃ rep, ((start (plainEnvironment {}) (.quoted "f.cc")).afterFacts
        (builtinCaller ++ builtinNamer)).finish.1 = .ok rep ∧
      ((start (plainEnvironment {}) (.quoted "f.cc")).afterFacts
        (builtinCaller ++ builtinNamer)).isBuiltin builtinFunction = true ∧
      ((start (plainEnvironment {}) (.quoted "f.cc")).afterFacts
        (builtinCaller ++ builtinNamer)).isBuiltin builtinClass = true ∧
      ∃ report ∈ rep.files,
        .needsDeclaration (.quoted "f.cc") 8 builtinFunction.name ∈ report.diagnostics ∧
        builtinClass ∈ symbolsOf report.add := by
  obtain ⟨rep, hr, h⟩ := exists_ok (p := fun rep =>
      ((start (plainEnvironment {}) (.quoted "f.cc")).afterFacts
        (builtinCaller ++ builtinNamer)).isBuiltin builtinFunction &&
      ((start (plainEnvironment {}) (.quoted "f.cc")).afterFacts
        (builtinCaller ++ builtinNamer)).isBuiltin builtinClass &&
      rep.files.any fun report =>
        report.diagnostics.contains
          (.needsDeclaration (.quoted "f.cc") 8 builtinFunction.name) &&
        (symbolsOf report.add).contains builtinClass)
    (by decide +kernel : ((start (plainEnvironment {}) (.quoted "f.cc")).afterFacts
      (builtinCaller ++ builtinNamer)).finish.1.toOption.any _ = true)
  simp only [Bool.and_eq_true, List.any_eq_true, List.contains_iff_mem] at h
  obtain ⟨⟨hfunction, hclass⟩, report, hreport, hwarned, hadded⟩ := h
  exact ⟨rep, hr, hfunction, hclass, report, hreport, hwarned, hadded⟩

end Session

end IncludeAudit
