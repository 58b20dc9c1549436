import IncludeAudit.Proofs.Session.Backing
import IncludeAudit.Proofs.Session.Directives

/-!
# What a report lists

The status of a use may name an include of the file or a declaration in it, which the full list of
the report should have. Declarations it always has. An include it has, with one exception: a use in
the main file that needs a declaration only may find it through what an associated header includes,
and then the status names an include that the main file itself need not have (`Borrowed`).

* `Decides.included_cases`, `visibleDeclaration?_cases`: which includes a status may name;
* `listed_iff_of_decides`: the includes of one report;
* `listed_iff`: all that the statuses of a session name.
-/

namespace IncludeAudit

namespace Plan

variable {ctx : DecisionContext} {r : FileRecord} {u : ResolvedUse} {slot : Slot} {o : UseOutcome}
  {x : FileName}

/-- An include that a status names is chosen for the use, or the declaration that the use needs is
visible through it. -/
theorem Decides.included_cases (h : Decides ctx r u slot o) (hs : o.status = .included x) :
    x ∈ chosen ctx r ∨ o.kind = .forwardDeclarable ∧
      ctx.visibleDeclaration? r (make ctx r).kept u.use.symbol = some x := by
  have hstatus := hs
  rw [h.outcome, outcomeOf] at hstatus
  simp only [status] at hstatus
  cases hc : (ctx.triage r u).course with
  | settled status =>
    simp only [hc] at hstatus
    rcases DecisionContext.settled_cases hc with ⟨reason, hr⟩ | ⟨hr, -⟩ <;> rw [hr] at hstatus <;>
      cases hstatus
  | need candidates =>
    simp only [hc] at hstatus
    unfold needStatus at hstatus
    split at hstatus <;> cases hstatus
    rename_i ha
    exact .inl (h.sound.of_chosen ha).2.2
  | forward =>
    simp only [hc, DecisionContext.triage_symbol, forwardStatus] at hstatus
    split at hstatus
    · cases hstatus
    · split at hstatus <;> cases hstatus
      rename_i hvisible
      refine .inr ⟨?_, hvisible⟩
      rw [h.outcome]
      exact (DecisionContext.forward_cases hc).1

end Plan

namespace DecisionContext

variable {ctx : DecisionContext} {r : FileRecord} {kept : OrderedSet FileName} {k : SymbolKey}
  {x : FileName}

/-- A declaration is visible through what the file includes in the end, through an associated
header, or through what one of these includes. -/
theorem visibleDeclaration?_cases (h : ctx.visibleDeclaration? r kept k = some x) :
    x ∈ kept ∨ x ∈ ctx.associated ∨ x ∈ ctx.associatedIncludes := by
  obtain ⟨e, -, hx⟩ := List.exists_of_findSome?_eq_some h
  unfold visibleThrough? at hx
  split at hx
  · cases hx
  · rcases Option.or_eq_some_iff.1 hx with hx | ⟨-, hx⟩
    · have hprovided := List.find?_some hx
      simpa only [isProvided, Bool.or_eq_true, OrderedSet.contains_eq_true, or_assoc,
        List.contains_iff_mem] using hprovided
    · split at hx
      · exact .inl (List.mem_of_find?_eq_some hx)
      · cases hx

end DecisionContext

namespace Session

variable {env : Environment} {main f x : FileName} {es : List Event} {s : Session}
  {rep : SessionReport} {report mainReport : FileReport} {associated extra : List FileReport}
  {on : Reliance} {o : UseOutcome}

/-- The includes that the main file keeps whether they are used or not, which does not depend on
what its associated headers include. -/
def mainHeld (s : Session) : OrderedSet FileName :=
  (s.context (s.mainReliance s.associatedHeaders [])).protectedIncludes (s.recordOf s.mainFile)

/-- A use in the main file that needs a declaration only finds it through what an associated header
includes, and the main file has no other reason to include this. -/
structure Borrowed (s : Session) (rep : SessionReport) (report : FileReport) (o : UseOutcome)
    (x : FileName) : Prop where
  main : report.file = s.mainFile
  kind : o.kind = .forwardDeclarable
  associated : s.AssociatedHas rep x
  unheld : x ∉ s.mainHeld
  unserved : ∀ o ∈ report.uses, ¬ Plan.ServedBy o x

/-- A file keeps what it keeps also as the main file. -/
theorem isProtected_main {r : FileRecord}
    (hon : on = {} ∨ on = s.mainReliance s.associatedHeaders associated)
    (h : (s.context on).isProtected r x = true) :
    (s.context (s.mainReliance s.associatedHeaders [])).isProtected r x = true := by
  rcases hon with rfl | rfl
  · simp only [DecisionContext.isProtected, context, mainReliance, Bool.or_eq_true,
      List.contains_nil, Bool.false_eq_true, or_false] at h ⊢
    grind
  · exact h

/-- What is borrowed is not listed. -/
theorem Borrowed.not_mem_fullIncludes (hb : Borrowed s rep report o x) (hrec : Recorded env main es s)
    (hreported : Reported s on f report)
    (hon : on = {} ∨ on = s.mainReliance s.associatedHeaders associated) :
    x ∉ report.fullIncludes := by
  have hfile : f = s.mainFile := (hrec.file f).symm.trans (hreported.file.symm.trans hb.main)
  obtain ⟨resolved, -, rfl⟩ := hreported
  intro hx
  rcases OrderedSet.mem_union.1 (Plan.mem_fullIncludes.1 hx) with hchosen | hheld
  · obtain ⟨o', ho', hserved⟩ := Plan.mem_chosen_iff.1 hchosen
    exact hb.unserved o' ho' hserved
  · obtain ⟨hpresent, hprotected⟩ := Plan.mem_held.1 hheld
    subst hfile
    exact hb.unheld (OrderedSet.mem_filter.2 ⟨hpresent, isProtected_main hon hprotected⟩)

/-- The main file lists what a status names, or it is borrowed. -/
theorem mem_fullIncludes_or_borrowed (hrec : Recorded env main es s)
    (hmain : rep.mainFile = s.mainFile) (h : Reports s rep.files mainReport associated extra)
    (hreported : Reported s on f report)
    (hon : on = {} ∨ on = s.mainReliance s.associatedHeaders associated ∧ f = s.mainFile)
    (ho : o ∈ report.uses) (hs : o.status = .included x) :
    x ∈ report.fullIncludes ∨ Borrowed s rep report o x := by
  obtain ⟨resolved, hplan, hall⟩ := hreported.forall₂_decided
  obtain ⟨c, -, u, -, slot, hd⟩ := forall₂_exists_left hall o ho
  have hlisted (hx : x ∈ (Plan.make (s.context on) (s.resolvedRecord f resolved)).kept) :
      x ∈ report.fullIncludes := by
    rw [hplan]
    exact Plan.mem_fullIncludes.2 hx
  rcases hd.included_cases hs with hchosen | ⟨hkind, hvisible⟩
  · exact .inl (hlisted (OrderedSet.mem_union.2 (.inl hchosen)))
  rcases DecisionContext.visibleDeclaration?_cases hvisible with hkept | hheader | hincluded
  · exact .inl (hlisted hkept)
  · rcases hon with rfl | ⟨rfl, rfl⟩
    · exact absurd hheader List.not_mem_nil
    · exact .inl (mem_fullIncludes_of_associated hrec hreported hheader)
  · rcases hon with rfl | ⟨rfl, rfl⟩
    · exact absurd hincluded OrderedSet.not_mem_empty
    · refine or_iff_not_imp_left.2 fun hx => ?_
      refine ⟨hreported.file.trans (hrec.file _), hkind,
        associatedHas_of_mem hrec hmain h (.inr rfl) hincluded, fun hheld => ?_,
        fun o' ho' hserved => ?_⟩
      · exact hx (hlisted (OrderedSet.mem_union.2 (.inr hheld)))
      · rw [hplan] at ho'
        exact hx (hlisted (OrderedSet.mem_union.2 (.inl (Plan.mem_chosen_iff.2 ⟨o', ho', hserved⟩))))

/-- Each include that a status names is one of those that the report lists, unless it is borrowed.
Each symbol whose status is that it is declared has a line that declares it. -/
theorem listed_iff (env : Environment) (main : FileName) (es : List Event) {rep : SessionReport}
    (hr : ((start env main).afterFacts es).finish.1 = .ok rep) :
    ∀ report ∈ rep.files, ∀ o ∈ report.uses,
      (∀ x, o.status = .included x → (x ∈ report.fullIncludes ↔
        ¬ Borrowed ((start env main).afterFacts es) rep report o x)) ∧
      (o.status = .forwardDeclared → ∃ line ∈ report.full, line.declared? = some o.symbol) := by
  obtain ⟨taken, hrec, -, -⟩ := exists_recorded env main es
  generalize (start env main).afterFacts es = s at hrec hr
  obtain ⟨hmain, mainReport, associated, extra, h⟩ := finish_ok hr hrec.resolved
  intro report hreport o ho
  obtain ⟨on, f, hreported, hon⟩ : ∃ on f, Reported s on f report ∧
      (on = {} ∨ on = s.mainReliance s.associatedHeaders associated ∧ f = s.mainFile) := by
    rcases h.reported_cases report hreport with hreported | ⟨f, hreported⟩
    · exact ⟨_, _, hreported, .inr ⟨rfl, rfl⟩⟩
    · exact ⟨_, f, hreported, .inl rfl⟩
  refine ⟨fun x hs => ?_, fun hs => ?_⟩
  · constructor
    · intro hx hb
      exact hb.not_mem_fullIncludes hrec hreported (hon.imp id And.left) hx
    · exact (mem_fullIncludes_or_borrowed hrec hmain h hreported hon ho hs).resolve_right
  · have hknown := find?_of_mem_uses hreported ho
    obtain ⟨resolved, -, rfl⟩ := hreported
    exact List.mem_filterMap.1
      (Plan.mem_symbolsOf_full (Plan.mem_forwardNeeded.2 ⟨o, ho, rfl, hs⟩) hknown)

/-! ## A use that an include of the associated header satisfies -/

/-- A source file with its header, which uses what another header defines. The source file uses this
by a pointer. -/
def sharedHeader : List Event :=
  [ .directive ⟨.quoted "f.cc", .quoted "f.h", .line 1, none⟩,
    .directive ⟨.quoted "f.h", .quoted "a.h", .line 1, none⟩,
    .declaration { symbol := ⟨"S", .record⟩, location := .plain ⟨.quoted "a.h", 3, 1⟩
                   isDefinition := true },
    .use { symbol := ⟨"S", .record⟩, location := .plain ⟨.quoted "f.h", 5, 1⟩
           hints := { memberAccess := true } },
    .use { symbol := ⟨"S", .record⟩, location := .plain ⟨.quoted "f.cc", 9, 1⟩
           hints := { pointerOrReference := true } } ]

/-- The source file keeps an include of the other header too, and uses, by a pointer, a class which
it only reaches through what its header does not need. -/
def ownInclude : List Event :=
  [ .directive ⟨.quoted "f.cc", .quoted "a.h", .line 2, some .keep⟩,
    .directive ⟨.quoted "f.h", .quoted "t.h", .line 2, none⟩,
    .declaration { symbol := ⟨"T", .record⟩, location := .plain ⟨.quoted "t.h", 3, 1⟩
                   isDefinition := true },
    .use { symbol := ⟨"T", .record⟩, location := .plain ⟨.quoted "f.cc", 10, 1⟩
           hints := { pointerOrReference := true } } ]

/-- An include that the source file keeps is listed when a use names it, and the class that is not
visible has a line. -/
theorem listed_of_sharedHeader :
    ∃ rep, ((start (plainEnvironment {}) (.quoted "f.cc")).afterFacts
        (sharedHeader ++ ownInclude)).finish.1 = .ok rep ∧
      ∃ report ∈ rep.files, ∃ o ∈ report.uses, ∃ o' ∈ report.uses,
        o.kind = .forwardDeclarable ∧ o.status = .included (.quoted "a.h") ∧
        .quoted "a.h" ∈ report.fullIncludes ∧ o'.status = .forwardDeclared ∧
        ∃ line ∈ report.full, line.declared? = some o'.symbol := by
  obtain ⟨rep, hr, h⟩ := exists_ok (p := fun rep =>
      ((start (plainEnvironment {}) (.quoted "f.cc")).afterFacts
        (sharedHeader ++ ownInclude)).mainHeld.contains (.quoted "a.h") &&
      rep.files.any fun report =>
        (report.uses.any fun o => o.kind == .forwardDeclarable &&
          o.status == .included (.quoted "a.h")) &&
        report.uses.any fun o => o.status == .forwardDeclared)
    (by decide +kernel : ((start (plainEnvironment {}) (.quoted "f.cc")).afterFacts
      (sharedHeader ++ ownInclude)).finish.1.toOption.any _ = true)
  simp only [Bool.and_eq_true, List.any_eq_true, beq_iff_eq, OrderedSet.contains_eq_true] at h
  obtain ⟨hheld, report, hreport, ⟨o, ho, hkind, hstatus⟩, o', ho', hstatus'⟩ := h
  have hlisted := listed_iff _ _ _ hr report hreport
  exact ⟨rep, hr, report, hreport, o, ho, o', ho', hkind, hstatus,
    ((hlisted o ho).1 _ hstatus).2 fun hb => hb.unheld hheld, hstatus', (hlisted o' ho').2 hstatus'⟩

/-- Without it the status names an include that the source file does not have. -/
theorem unlisted_of_sharedHeader :
    ∃ rep, ((start (plainEnvironment {}) (.quoted "f.cc")).afterFacts
        sharedHeader).finish.1 = .ok rep ∧
      ∃ report ∈ rep.files, ∃ o ∈ report.uses,
        o.status = .included (.quoted "a.h") ∧ .quoted "a.h" ∉ report.fullIncludes := by
  obtain ⟨rep, hr, h⟩ := exists_ok (p := fun rep => rep.files.any fun report =>
      !report.fullIncludes.contains (.quoted "a.h") &&
        report.uses.any fun o => o.status == .included (.quoted "a.h"))
    (by decide +kernel : ((start (plainEnvironment {}) (.quoted "f.cc")).afterFacts
      sharedHeader).finish.1.toOption.any _ = true)
  simp only [List.any_eq_true, Bool.and_eq_true, beq_iff_eq, Bool.not_eq_true',
    List.contains_eq_mem, decide_eq_false_iff_not] at h
  obtain ⟨report, hreport, hunlisted, o, ho, hstatus⟩ := h
  exact ⟨rep, hr, report, hreport, o, ho, hstatus, hunlisted⟩

end Session

end IncludeAudit
