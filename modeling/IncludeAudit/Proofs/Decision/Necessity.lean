import IncludeAudit.Engine.Standard
import IncludeAudit.Proofs.Decision.Lines
import IncludeAudit.Proofs.Decision.Providers

/-!
# Which includes are needed

A chosen include has a use that it alone serves among the chosen ones (`exists_chosenFor`). The
choice does not look at the includes that stay because they are protected, so an include may be
chosen for uses that one of these serves as well; `needed_iff` says exactly when this is so for all
uses of an include.
-/

namespace IncludeAudit

namespace FileReport

open DecisionContext (usable mem_usable)

variable {ctx : DecisionContext} {r done : FileRecord} {report : FileReport} {o : UseOutcome}
  {x : FileName}

/-- The candidate providers of a use other than a given one. -/
def alternatives (ctx : DecisionContext) (r : FileRecord) (o : UseOutcome) (x : FileName) :
    List FileName :=
  (ctx.candidateProviders r.file o).filter (· ≠ x)

/-- An include is needed if it serves a use that nothing else would serve: neither another include
in the full list, nor the file itself, nor an include of an associated header. -/
def Needed (ctx : DecisionContext) (r : FileRecord) (report : FileReport) (x : FileName) : Prop :=
  ∃ o ∈ report.uses, o.status = .included x ∧ ∀ c ∈ alternatives ctx r o x,
    c ∉ report.fullIncludes ∧ c ≠ r.file ∧ c ∉ ctx.associatedIncludes

/-- An include is the only choice for a use if nothing else would serve it, protected includes
aside, and includes of associated headers that the file may not include. -/
structure OnlyChoice (ctx : DecisionContext) (r : FileRecord) (report : FileReport) (x : FileName)
    (o : UseOutcome) : Prop where
  status : o.status = .included x
  notSelf : ∀ c ∈ alternatives ctx r o x, c ≠ r.file
  held : ∀ c ∈ alternatives ctx r o x,
    c ∈ report.fullIncludes → c ∈ r.present ∧ ctx.isProtected r c = true
  unusable : ∀ c ∈ alternatives ctx r o x,
    c ∈ ctx.associatedIncludes → c ∉ usable r (ctx.candidateProviders r.file o)

theorem mem_alternatives {c : FileName} :
    c ∈ alternatives ctx r o x ↔ c ∈ ctx.candidateProviders r.file o ∧ c ≠ x := by
  simp [alternatives]

/-- Under the default policy a use that needs a file needs one of its usable candidates. -/
theorem mem_need {u : ResolvedUse} {slot : Slot} {c : FileName} (hp : ctx.policy = {})
    (h : Plan.Decides ctx r u slot o) (hn : (ctx.triage r u).course = .need slot.need) :
    c ∈ slot.need ↔ c ∈ usable r (ctx.candidateProviders r.file o) := by
  rw [h.need_eq hn, ← DecisionContext.mem_offered (by rw [hp])]
  simp [DecisionContext.bridge?, hp]

/-- What is chosen for one use is usable for all. -/
theorem usable_of_chosen {c : FileName} (hp : ctx.policy = {}) (hc : c ∈ Plan.chosen ctx r)
    (hm : c ∈ ctx.candidateProviders r.file o) :
    c ∈ usable r (ctx.candidateProviders r.file o) := by
  obtain ⟨_, -, slot, hdec, ha, -⟩ := Plan.exists_own_use hc
  have hneed := (mem_need hp hdec (hdec.of_chosen ha).1).1 (hdec.sound.of_chosen ha).2.1
  exact mem_usable.2 ⟨hm, (mem_usable.1 hneed).2⟩

theorem exists_onlyChoice (h : finalize ctx r = .ok (report, done)) (hp : ctx.policy = {})
    (hx : x ∈ report.fullIncludes) (hu : ctx.isProtected r x = false) :
    ∃ o ∈ report.uses, OnlyChoice ctx r report x o := by
  obtain rfl := report_of_finalize h
  have hd : x ∈ Plan.chosen ctx r := by
    rcases OrderedSet.mem_union.1 (Plan.mem_fullIncludes.1 hx) with hd | hh
    · exact hd
    · rw [(Plan.mem_held.1 hh).2] at hu
      cases hu
  obtain ⟨⟨u, o⟩, he, slot, hdec, ha, hsole⟩ := Plan.exists_own_use hd
  obtain ⟨hn, hstatus, hself, hassociated⟩ := hdec.of_chosen ha
  refine ⟨o, (List.of_mem_zip he).2, hstatus, fun c hc => ?_, fun c hc hfull => ?_,
    fun c _ hi hc => hassociated c ((mem_need hp hdec hn).2 hc) hi⟩
  · rintro rfl
    exact hself ((mem_need hp hdec hn).2 (mem_usable.2 ⟨(mem_alternatives.1 hc).1, .inl rfl⟩))
  · obtain ⟨hm, hne⟩ := mem_alternatives.1 hc
    rcases OrderedSet.mem_union.1 (Plan.mem_fullIncludes.1 hfull) with hd | hh
    · exact absurd (hsole c ((mem_need hp hdec hn).2 (usable_of_chosen hp hd hm)) hd) hne
    · exact Plan.mem_held.1 hh

/-- An include that is not protected is always the only choice for some use. It is needed exactly if
one of these uses has no protected include and no include of an associated header for an
alternative. -/
theorem needed_iff (h : finalize ctx r = .ok (report, done)) (hp : ctx.policy = {})
    (hx : x ∈ report.fullIncludes) (hu : ctx.isProtected r x = false) :
    (∃ o ∈ report.uses, OnlyChoice ctx r report x o) ∧
      (Needed ctx r report x ↔ ∃ o ∈ report.uses, OnlyChoice ctx r report x o ∧
        ∀ c ∈ alternatives ctx r o x,
          ¬ (c ∈ r.present ∧ ctx.isProtected r c = true) ∧ c ∉ ctx.associatedIncludes) := by
  refine ⟨exists_onlyChoice h hp hx hu, ?_, ?_⟩
  · rintro ⟨o, ho, hstatus, hall⟩
    refine ⟨o, ho, ⟨hstatus, fun c hc => (hall c hc).2.1, fun c hc hf => absurd hf (hall c hc).1,
      fun c hc hi => absurd hi (hall c hc).2.2⟩, fun c hc => ⟨fun hheld => ?_, (hall c hc).2.2⟩⟩
    obtain rfl := report_of_finalize h
    exact (hall c hc).1 (Plan.mem_fullIncludes.2
      (OrderedSet.mem_union.2 (.inr (Plan.mem_held.2 hheld))))
  · rintro ⟨o, ho, honly, hall⟩
    exact ⟨o, ho, honly.status, fun c hc =>
      ⟨fun hf => (hall c hc).1 (honly.held c hc hf), honly.notSelf c hc, (hall c hc).2⟩⟩

/-! ## Two headers in the place of one -/

/-- The private header `p.h` with two public headers in its place. -/
def facades : DecisionContext where
  table := .empty []
  graph := {}
  providers.map :=
    (({} : ProviderBuilder).addMapping .standard .exact "p.h" .priv (.quoted "a.h") .pub
      |>.addMapping .standard .exact "p.h" .priv (.quoted "k.h") .pub).map
  providers.overlay := {}
  policy := {}
  keepGlobs := .none
  associated := []
  associatedIncludes := {}
  precompiled := none

/-- The include of the second of these headers. -/
def secondFacade (pragma : Option IncludePragma) : IncludeDirective :=
  ⟨.quoted "f.cc", .quoted "k.h", .line 2, pragma⟩

/-- A source file that includes both headers and uses what the private one defines. -/
def facadeUser (pragma : Option IncludePragma) : FileRecord where
  file := .quoted "f.cc"
  state := .resolving
  includes := [⟨.quoted "f.cc", .quoted "a.h", .line 1, none⟩, secondFacade pragma]
  resolved := [⟨{ symbol := ⟨"C", .record⟩, location := .plain ⟨.quoted "f.cc", 9, 1⟩
                  hints := { memberAccess := true } },
    ⟨.full, "complete_type_context"⟩, some ⟨none, .quoted "p.h", .nearestDefinition⟩⟩]
  pragmas := FileRecord.pragmasAfter (secondFacade pragma) {}

/-- Without a pragma the first header is needed, and the second one goes. -/
theorem needed_first_facade :
    ∃ report done, finalize facades (facadeUser none) = .ok (report, done) ∧
      Needed facades (facadeUser none) report (.quoted "a.h") := by
  have h : finalize facades (facadeUser none) = .ok (_, _) := rfl
  obtain ⟨⟨o, ho, honly⟩, hiff⟩ := needed_iff h rfl
    (Plan.mem_fullIncludes.2 (by decide +kernel : .quoted "a.h" ∈ _)) (by decide +kernel)
  refine ⟨_, _, rfl, hiff.2 ⟨o, ho, honly, ?_⟩⟩
  clear hiff honly
  revert o
  decide +kernel

/-- With a keep pragma on the second header both stay, although either one does. -/
theorem first_facade_unneeded :
    ∃ report done, finalize facades (facadeUser (some .keep)) = .ok (report, done) ∧
      facades.policy = {} ∧ .quoted "a.h" ∈ report.fullIncludes ∧
      facades.isProtected (facadeUser (some .keep)) (.quoted "a.h") = false ∧
      ¬ Needed facades (facadeUser (some .keep)) report (.quoted "a.h") := by
  refine ⟨_, _, rfl, rfl, Plan.mem_fullIncludes.2 (by decide +kernel), by decide +kernel, ?_⟩
  rintro ⟨o, ho, -, hall⟩
  have halt : .quoted "k.h" ∈ alternatives facades (facadeUser (some .keep)) o (.quoted "a.h") := by
    clear hall
    revert o
    decide +kernel
  exact (hall _ halt).1 (Plan.mem_fullIncludes.2 (by decide +kernel))

end FileReport

end IncludeAudit
