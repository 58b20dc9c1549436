import IncludeAudit.Proofs.Decision.Requirements
import IncludeAudit.Proofs.Session.Declaring

/-!
# Classes inside other classes

A class inside another cannot be declared on its own. A use of one is dropped where a declaration
would satisfy it, but only if the file does not declare the class at all; a declaration of the class
in the file, which stands in the enclosing class or defines the class, leaves the use to a line of
its own (`Uprooted`). `added_unnested_iff` says that there is no other way to such a line.

* `AsksDeclaration.declared`, `AsksDeclaration.undefined`: what the file of such a use declares.
-/

namespace IncludeAudit

namespace DecisionContext

variable {ctx : DecisionContext} {r : FileRecord} {u : ResolvedUse} {s : Symbol}

/-- No definition in the file is ahead of a use that asks for a declaration. -/
theorem AsksDeclaration.undefined (h : ctx.AsksDeclaration r u)
    (hs : ctx.table.find? u.use.symbol = some s) :
    ∀ d ∈ ctx.declarationsIn r.file u.use.symbol, d.isDefinition = true →
      u.use.line < d.lines.first := by
  rcases h.2 with ⟨-, hkept⟩ | ⟨-, hlocal⟩
  · exact ((forwardIgnored?_eq_none hs).1 hkept).1
  · simp only [hasLocalDeclaration, Bool.and_eq_true, List.all_eq_true, List.mem_filter,
      decide_eq_true_eq] at hlocal
    exact fun d hd hdefinition => hlocal.1.2 d ⟨hd, hdefinition⟩

/-- A use of a class inside another asks for a declaration only in a file that declares the class.
-/
theorem AsksDeclaration.declared (h : ctx.AsksDeclaration r u)
    (hs : ctx.table.find? u.use.symbol = some s) (hnested : s.traits.enclosingClass.isSome = true) :
    ∃ d, d ∈ ctx.declarationsIn r.file u.use.symbol := by
  rcases h.2 with ⟨-, hkept⟩ | ⟨-, hlocal⟩
  · exact List.exists_mem_of_ne_nil _ (((forwardIgnored?_eq_none hs).1 hkept).2 hnested)
  · simp only [hasLocalDeclaration, Bool.and_eq_true, List.any_eq_true] at hlocal
    obtain ⟨-, d, hd, -⟩ := hlocal
    exact ⟨d, hd⟩

end DecisionContext

namespace Session

open FileReport (symbolsOf)

variable {env : Environment} {main f : FileName} {es : List Event} {s : Session}
  {rep : SessionReport}

/-- True of a class inside another. -/
def isNested (s : Session) (k : SymbolKey) : Bool :=
  (s.table.find? k).any (·.traits.enclosingClass.isSome)

/-- A use because of which the file is told to declare a class inside another on its own: the file
declares the class, but neither by hand nor by a definition ahead of the use. -/
structure Uprooted (s : Session) (es : List Event) (f : FileName) (o : UseOutcome) : Prop where
  nested : s.isNested o.symbol = true
  proposed : o.status = .forwardDeclared
  declared : ∃ d, DeclaredIn es f o.symbol d
  unwritten : ∀ d, DeclaredIn es f o.symbol d → d.isForward = false
  undefined : ∀ d, DeclaredIn es f o.symbol d → d.isDefinition = true → o.line < d.lines.first

/-- No line that is added to a file declares a class inside another, exactly if no use makes the
file declare one. -/
theorem added_unnested_iff (env : Environment) (main : FileName) (es : List Event)
    (hr : ((start env main).afterFacts es).finish.1 = .ok rep) :
    ∀ report ∈ rep.files,
      (∀ l ∈ report.add, ∀ k, l.declared? = some k →
          ((start env main).afterFacts es).isNested k = false) ↔
        ∀ o ∈ report.uses, ¬ ((start env main).afterFacts es).Uprooted es report.file o := by
  obtain ⟨taken, hrec, htaken⟩ := exists_recorded_declaredIn env main es
  generalize (start env main).afterFacts es = s at hrec hr
  intro report hreport
  obtain ⟨on, hreported⟩ := reported_of_mem hrec hr hreport
  have hadded := fun k => hreported.mem_add_iff (k := k) hrec
  simp only [htaken] at hadded
  constructor
  · intro hnone o ho h
    obtain ⟨l, hl, hk⟩ := List.mem_filterMap.1
      ((hadded o.symbol).2 ⟨⟨o, ho, rfl, h.proposed⟩, h.unwritten⟩)
    have hunnested := hnone l hl _ hk
    rw [h.nested] at hunnested
    cases hunnested
  · intro hnot l hl k hk
    obtain ⟨⟨o, ho, rfl, hstatus⟩, hunwritten⟩ := (hadded k).1 (List.mem_filterMap.2 ⟨l, hl, hk⟩)
    refine Bool.eq_false_iff.2 fun hnested => hnot o ho ?_
    obtain ⟨symbol, hfind, hinside⟩ := (Option.any_eq_true _ _).1 hnested
    obtain ⟨resolved, -, hall⟩ := hreported.forall₂_decided
    obtain ⟨-, -, u, -, slot, hd⟩ := forall₂_exists_left hall o ho
    have hasks := DecisionContext.asksDeclaration_iff.1 (hd.forward_of_forwardDeclared hstatus).1
    have hhere : ∀ d, d ∈ (s.context on).declarationsIn
        (s.resolvedRecord report.file resolved).file u.use.symbol ↔
          DeclaredIn es report.file o.symbol d := by
      have hself : (s.resolvedRecord report.file resolved).file = report.file :=
        hrec.file report.file
      intro d
      rw [hself, ← hd.symbol_eq, hrec.mem_declarationsIn, htaken]
    rw [hd.symbol_eq] at hfind
    have hline : o.line = u.use.line := by rw [hd.outcome]; rfl
    have hdeclared := hasks.declared hfind hinside
    have hundefined := hasks.undefined hfind
    simp only [hhere, ← hline] at hdeclared hundefined
    exact ⟨hnested, hstatus, hdeclared, hunwritten, hundefined⟩

/-! ## A class that is defined out of line -/

/-- The class inside `Outer`. -/
def innerClass : SymbolKey :=
  ⟨"Outer::Inner", .record⟩

/-- A source file that includes the header of the enclosing class, and names the inner class by a
pointer. -/
def innerUser : List Event :=
  [ .traits innerClass { enclosingClass := some "Outer" },
    .directive ⟨.quoted "f.cc", .quoted "o.h", .line 1, none⟩,
    .declaration { symbol := ⟨"Outer", .record⟩, location := .plain ⟨.quoted "o.h", 3, 1⟩
                   isDefinition := true },
    .declaration { symbol := innerClass, location := .plain ⟨.quoted "o.h", 4, 1⟩ },
    .use { symbol := innerClass, location := .plain ⟨.quoted "f.cc", 5, 1⟩
           hints := { pointerOrReference := true } } ]

/-- The definition of the inner class in the source file. -/
def innerDefinition : Event :=
  .declaration { symbol := innerClass, location := .plain ⟨.quoted "f.cc", 9, 1⟩
                 isDefinition := true }

/-- The use is dropped if the source file does not declare the inner class. -/
theorem unnested_of_innerUser :
    ∃ rep,
      ((start (plainEnvironment {}) (.quoted "f.cc")).afterFacts innerUser).finish.1 = .ok rep ∧
      (∃ report ∈ rep.files, ∃ o ∈ report.uses, o.status = .ignored .nestedClass) ∧
      ∀ report ∈ rep.files, ∀ l ∈ report.add, ∀ k, l.declared? = some k →
        ((start (plainEnvironment {}) (.quoted "f.cc")).afterFacts innerUser).isNested k =
          false := by
  obtain ⟨rep, hr, h⟩ := exists_ok (p := fun rep =>
      (rep.files.any fun report => report.uses.any fun o => o.status == .ignored .nestedClass) &&
        rep.files.all fun report => report.uses.all fun o => o.status != .forwardDeclared)
    (by decide +kernel : ((start (plainEnvironment {}) (.quoted "f.cc")).afterFacts
      innerUser).finish.1.toOption.any _ = true)
  simp only [Bool.and_eq_true, List.any_eq_true, List.all_eq_true, beq_iff_eq, bne_iff_ne] at h
  refine ⟨rep, hr, h.1, fun report hreport => ?_⟩
  exact (added_unnested_iff _ _ _ hr report hreport).2 fun o ho huprooted =>
    h.2 report hreport o ho huprooted.proposed

/-- The source file is told to declare the class if it defines the class after the use. -/
theorem nested_of_innerDefinition :
    ∃ rep, ((start (plainEnvironment {}) (.quoted "f.cc")).afterFacts
        (innerUser ++ [innerDefinition])).finish.1 = .ok rep ∧
      ∃ report ∈ rep.files, ∃ l ∈ report.add, ∃ k, l.declared? = some k ∧
        ((start (plainEnvironment {}) (.quoted "f.cc")).afterFacts
          (innerUser ++ [innerDefinition])).isNested k = true := by
  obtain ⟨rep, hr, h⟩ := exists_ok (p := fun rep => rep.files.any fun report =>
      report.add.any fun l => l.declared? == some innerClass &&
        ((start (plainEnvironment {}) (.quoted "f.cc")).afterFacts
          (innerUser ++ [innerDefinition])).isNested innerClass)
    (by decide +kernel : ((start (plainEnvironment {}) (.quoted "f.cc")).afterFacts
      (innerUser ++ [innerDefinition])).finish.1.toOption.any _ = true)
  simp only [List.any_eq_true, Bool.and_eq_true, beq_iff_eq] at h
  obtain ⟨report, hreport, l, hl, hk, hnested⟩ := h
  exact ⟨rep, hr, report, hreport, l, hl, innerClass, hk, hnested⟩

end Session

end IncludeAudit
