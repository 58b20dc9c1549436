import IncludeAudit.Proofs.Decision.Edits
import IncludeAudit.Proofs.Decision.Requirements
import IncludeAudit.Proofs.Graph.Reachability

/-!
# Declarations that an include makes redundant

A use that asks for a declaration gets none if another use of the symbol asks for a file, or if a
declaration of the symbol in another file is seen through what the file includes. It is seen
through its own file, or through the file at the end of the chain of mappings from there
(`FileReport.Sees`). A use of the definition is served by any candidate provider, so what serves
uses of the definition may still not be seen (`FileReport.Overlooks`).

* `visibleDeclaration?_eq_none`: when no declaration is seen;
* `redeclares_iff`: for which symbols a declaration is proposed;
* `redundant_iff`: for which of them an include of the file is a candidate provider.
-/

namespace IncludeAudit

open Relation (TransGen)

/-- One of the declarations of the symbol in files other than that of the record. -/
structure DecisionContext.DeclaredOutside (ctx : DecisionContext) (r : FileRecord) (k : SymbolKey)
    (d : Declaration) : Prop where
  known : d ∈ ctx.table.declarations
  symbol : d.symbol = k
  outside : d.file ≠ r.file

namespace FileReport

variable {ctx : DecisionContext} {r : FileRecord} {report : FileReport} {k : SymbolKey}
  {d : Declaration} {f : FileName}

/-- The file is included in the end, by the reported file or for it. -/
def Has (ctx : DecisionContext) (report : FileReport) (f : FileName) : Prop :=
  f ∈ report.fullIncludes ∨ f ∈ ctx.associated ∨ f ∈ ctx.associatedIncludes

/-- The declaration is seen: its file is included, or the file that replaces it, or, if the policy
tolerates this, an include of the full list reaches its file. -/
inductive Sees (ctx : DecisionContext) (r : FileRecord) (report : FileReport) (d : Declaration) :
    Prop where
  | itself (h : Has ctx report d.file)
  | replaced (h : Has ctx report (ctx.providers.resolveFor d.file r.file).file)
  | reached (ht : ctx.policy.tolerateTransitive = true) {f : FileName}
    (hf : f ∈ report.fullIncludes) (hp : TransGen ctx.graph.Includes f d.file)

/-- An include of the full list is a candidate provider for a file that declares the symbol. -/
def Provides (ctx : DecisionContext) (r : FileRecord) (report : FileReport) (k : SymbolKey) :
    Prop :=
  ∃ d, ctx.DeclaredOutside r k d ∧
    ∃ c ∈ ctx.providers.publicCandidates d.file r.file, c ∈ report.fullIncludes

/-- Some use of the symbol is left to a declaration, or one is added. -/
def Redeclares (report : FileReport) (k : SymbolKey) : Prop :=
  (∃ o ∈ report.uses, o.symbol = k ∧ o.status = .forwardDeclared) ∨ k ∈ symbolsOf report.add

/-- A use asks for a declaration of the symbol and none for a file, and no declaration is seen. Yet
an include of the full list is a candidate provider for a file that declares the symbol, other than
this file and the one at the end of its chain. -/
structure Overlooks (ctx : DecisionContext) (r : FileRecord) (report : FileReport) (k : SymbolKey) :
    Prop where
  asked : ∃ u ∈ r.resolved, u.use.symbol = k ∧ ctx.AsksDeclaration r u
  uncovered : ∀ o ∈ report.uses, o.symbol = k → ¬ ctx.AsksFile r o
  unseen : ∀ d, ctx.DeclaredOutside r k d → ¬ Sees ctx r report d
  roundabout : ∃ d, ctx.DeclaredOutside r k d ∧
    ∃ c ∈ ctx.providers.publicCandidates d.file r.file, c ∈ report.fullIncludes ∧
      c ≠ d.file ∧ c ≠ (ctx.providers.resolveFor d.file r.file).file

/-! ## What is seen -/

theorem isProvided_iff :
    ctx.isProvided (Plan.make ctx r).kept f = true ↔
      Has ctx ((Plan.make ctx r).report ctx r) f := by
  rw [Has, Plan.mem_fullIncludes]
  simp [DecisionContext.isProvided, or_assoc]

theorem visibleThrough?_eq_none (hd : d.file ≠ r.file) :
    ctx.visibleThrough? r (Plan.make ctx r).kept d = none ↔
      ¬ Sees ctx r ((Plan.make ctx r).report ctx r) d := by
  rw [DecisionContext.visibleThrough?, if_neg hd, Option.or_eq_none_iff, List.find?_eq_none]
  simp only [List.mem_cons, List.not_mem_nil, or_false, forall_eq_or_imp, forall_eq, isProvided_iff]
  constructor
  · rintro ⟨⟨hitself, hreplaced⟩, htolerated⟩ hsees
    cases hsees with
    | itself h => exact hitself h
    | replaced h => exact hreplaced h
    | reached ht hf hp =>
      rw [if_pos ht, List.find?_eq_none] at htolerated
      refine htolerated _ (Plan.mem_fullIncludes.1 hf) ?_
      rw [List.contains_iff_mem, IncludeGraph.mem_closure]
      exact hp
  · intro hunseen
    refine ⟨⟨fun h => hunseen (.itself h), fun h => hunseen (.replaced h)⟩, ?_⟩
    split
    · rename_i ht
      refine List.find?_eq_none.2 fun f hf hp => hunseen (.reached ht (Plan.mem_fullIncludes.2 hf) ?_)
      rwa [List.contains_iff_mem, IncludeGraph.mem_closure] at hp
    · rfl

/-- No declaration is visible exactly if none in another file is seen. -/
theorem visibleDeclaration?_eq_none :
    ctx.visibleDeclaration? r (Plan.make ctx r).kept k = none ↔
      ∀ d, ctx.DeclaredOutside r k d → ¬ Sees ctx r ((Plan.make ctx r).report ctx r) d := by
  have hcandidates : ∀ d, d ∈ (ctx.table.candidates k).map (·.2) ↔
      d ∈ ctx.table.declarations ∧ d.symbol = k := fun d => SymbolTable.mem_candidates
  simp only [List.mem_map] at hcandidates
  rw [DecisionContext.visibleDeclaration?, List.findSome?_eq_none_iff]
  constructor
  · intro h d hd
    obtain ⟨e, he, rfl⟩ := (hcandidates d).2 ⟨hd.known, hd.symbol⟩
    exact (visibleThrough?_eq_none hd.outside).1 (h e he)
  · intro h e he
    obtain ⟨hknown, hsymbol⟩ := (hcandidates e.2).1 ⟨e, he, rfl⟩
    by_cases hself : e.2.file = r.file
    · rw [DecisionContext.visibleThrough?, if_pos hself]
    · exact (visibleThrough?_eq_none hself).2 (h e.2 ⟨hknown, hsymbol, hself⟩)

/-! ## What is proposed -/

/-- A declaration satisfies the uses of a symbol that wait for one exactly if no use of it asks for
a file and no declaration of it is seen. -/
theorem forwardStatus_eq_forwardDeclared :
    (Plan.make ctx r).forwardStatus ctx r k = .forwardDeclared ↔
      (∀ o ∈ (Plan.make ctx r).outcomes ctx r, o.symbol = k → ¬ ctx.AsksFile r o) ∧
      ∀ d, ctx.DeclaredOutside r k d → ¬ Sees ctx r ((Plan.make ctx r).report ctx r) d := by
  have hcovered : (Plan.make ctx r).fullSymbols.contains k = true ↔
      ¬ ∀ o ∈ (Plan.make ctx r).outcomes ctx r, o.symbol = k → ¬ ctx.AsksFile r o := by
    rw [List.contains_iff_mem, Plan.mem_fullSymbols]
    simp only [not_forall, not_not, exists_prop]
  rw [← visibleDeclaration?_eq_none, Plan.forwardStatus]
  split
  · rename_i h
    exact iff_of_false (by simp) fun hboth => hcovered.1 h hboth.1
  · rename_i h
    rw [and_iff_right (not_not.1 (mt hcovered.2 h))]
    cases ctx.visibleDeclaration? r (Plan.make ctx r).kept k <;> simp

/-- A declaration is proposed for a symbol exactly if a use of it asks for one, no use of it asks
for a file, and no declaration of it is seen. -/
theorem redeclares_iff :
    Redeclares ((Plan.make ctx r).report ctx r) k ↔
      (∃ u ∈ r.resolved, u.use.symbol = k ∧ ctx.AsksDeclaration r u) ∧
      (∀ o ∈ (Plan.make ctx r).outcomes ctx r, o.symbol = k → ¬ ctx.AsksFile r o) ∧
      ∀ d, ctx.DeclaredOutside r k d → ¬ Sees ctx r ((Plan.make ctx r).report ctx r) d := by
  have hdecided := Plan.forall₂_decided ctx r
  have hadded : k ∈ symbolsOf ((Plan.make ctx r).report ctx r).add →
      ∃ o ∈ ((Plan.make ctx r).report ctx r).uses, o.symbol = k ∧ o.status = .forwardDeclared :=
    fun h => Plan.mem_forwardNeeded.1 (Plan.mem_symbolsOf_add.1 h).1
  rw [Redeclares, or_iff_left_of_imp hadded, ← forwardStatus_eq_forwardDeclared]
  constructor
  · rintro ⟨o, ho, rfl, hs⟩
    obtain ⟨u, hu, slot, hd⟩ := forall₂_exists_left hdecided o ho
    obtain ⟨hcourse, hstatus⟩ := hd.forward_of_forwardDeclared hs
    rw [← hd.symbol_eq] at hstatus
    exact ⟨⟨u, hu, hd.symbol_eq.symm, DecisionContext.asksDeclaration_iff.1 hcourse⟩, hstatus⟩
  · rintro ⟨⟨u, hu, rfl, hasks⟩, hstatus⟩
    obtain ⟨o, ho, slot, hd⟩ := forall₂_exists_right hdecided u hu
    refine ⟨o, ho, hd.symbol_eq, ?_⟩
    rw [hd.status_eq, Plan.status, DecisionContext.asksDeclaration_iff.2 hasks]
    exact DecisionContext.triage_symbol ▸ hstatus

/-- A record that is resolving gets a report that proposes no declaration for a symbol which a
candidate provider among its includes declares, unless it overlooks all of these. -/
theorem redundant_iff (hstate : r.state = .resolving) :
    ∃ report done, finalize ctx r = .ok (report, done) ∧
      ∀ k, (Provides ctx r report k → ¬ Redeclares report k) ↔ ¬ Overlooks ctx r report k := by
  refine ⟨_, _, Plan.finalize_of_resolving hstate, fun k => ?_⟩
  rw [← not_and]
  refine not_congr ⟨?_, ?_⟩
  · rintro ⟨⟨d, hd, c, hc, hfull⟩, hredeclares⟩
    obtain ⟨hasked, huncovered, hunseen⟩ := redeclares_iff.1 hredeclares
    refine ⟨hasked, huncovered, hunseen, d, hd, c, hc, hfull, ?_, ?_⟩
    · rintro rfl
      exact hunseen d hd (.itself (.inl hfull))
    · rintro rfl
      exact hunseen d hd (.replaced (.inl hfull))
  · rintro ⟨hasked, huncovered, hunseen, d, hd, c, hc, hfull, -⟩
    exact ⟨⟨d, hd, c, hc, hfull⟩, redeclares_iff.2 ⟨hasked, huncovered, hunseen⟩⟩

/-! ## A header that re-exports another -/

/-- The definition of the class `S` in a header. -/
def definitionIn (home : FileName) : Declaration where
  symbol := ⟨"S", .record⟩
  location := .plain ⟨home, 3, 1⟩
  isDefinition := true

/-- The header `k.h` re-exports `d.h`, and the class `S` is defined in one of the two. -/
def reexporting (home : FileName) : DecisionContext where
  __ := twiceDeclared
  table := (SymbolTable.empty []).declare (definitionIn home)
  graph := ({} : IncludeGraph).add ⟨.quoted "f.cc", .quoted "k.h", .line 1, none⟩ |>.add
    ⟨.quoted "k.h", .quoted "d.h", .line 1, some .reexport⟩
  providers := ⟨.empty, ({} : Overlay).addExport (.quoted "d.h") (.quoted "k.h")⟩

/-- A source file that includes `k.h` for the definition of a class in it, and names the class `S`
by a pointer. -/
def reexportUser (home : FileName) : FileRecord where
  __ := repeater
  includes := [⟨.quoted "f.cc", .quoted "k.h", .line 1, none⟩]
  forwardDecls := []
  resolved :=
    [ ⟨{ symbol := ⟨"K", .record⟩, location := .plain ⟨.quoted "f.cc", 8, 1⟩
         hints := { memberAccess := true } },
       ⟨.full, "complete_type_context"⟩, some ⟨none, .quoted "k.h", .nearestDefinition⟩⟩,
      ⟨{ symbol := ⟨"S", .record⟩, location := .plain ⟨.quoted "f.cc", 9, 1⟩
         hints := { pointerOrReference := true } },
       ⟨.forwardDeclarable, "pointer_or_reference"⟩,
       some ⟨some 0, home, .nearestDeclaration⟩⟩ ]
  pragmas := {}

theorem definitionIn_outside {home : FileName} (h : home ≠ .quoted "f.cc") :
    (reexporting home).DeclaredOutside (reexportUser home) ⟨"S", .record⟩ (definitionIn home) :=
  ⟨List.mem_singleton_self _, rfl, h⟩

/-- The class needs no declaration if `k.h` defines it. -/
theorem not_redeclares_includedClass :
    (reexportUser (.quoted "k.h")).state = .resolving ∧
      ∃ report done,
        finalize (reexporting (.quoted "k.h")) (reexportUser (.quoted "k.h")) = .ok (report, done) ∧
        Provides (reexporting (.quoted "k.h")) (reexportUser (.quoted "k.h")) report
          ⟨"S", .record⟩ ∧
        ¬ Redeclares report ⟨"S", .record⟩ := by
  obtain ⟨report, done, h, hiff⟩ :=
    @redundant_iff (reexporting (.quoted "k.h")) (reexportUser (.quoted "k.h")) rfl
  have hk : .quoted "k.h" ∈ report.fullIncludes := by
    rw [report_of_finalize h, Plan.mem_fullIncludes]
    decide +kernel
  have hd := definitionIn_outside (by decide : FileName.quoted "k.h" ≠ .quoted "f.cc")
  have hprovides : Provides (reexporting (.quoted "k.h")) (reexportUser (.quoted "k.h")) report
      ⟨"S", .record⟩ :=
    ⟨_, hd, .quoted "k.h", by decide +kernel, hk⟩
  refine ⟨rfl, report, done, h, hprovides, (hiff _).2 (fun hoverlooks => ?_) hprovides⟩
  exact hoverlooks.unseen _ hd (.itself (.inl hk))

/-- One is added if `k.h` re-exports the header that defines it. -/
theorem redeclares_reexportedClass :
    (reexportUser (.quoted "d.h")).state = .resolving ∧
      ∃ report done,
        finalize (reexporting (.quoted "d.h")) (reexportUser (.quoted "d.h")) = .ok (report, done) ∧
        Provides (reexporting (.quoted "d.h")) (reexportUser (.quoted "d.h")) report
          ⟨"S", .record⟩ ∧
        (∃ o ∈ report.uses, o.symbol = ⟨"S", .record⟩ ∧ o.status = .forwardDeclared) ∧
        ⟨"S", .record⟩ ∈ symbolsOf report.add := by
  refine ⟨rfl, _, _, rfl, ⟨_, definitionIn_outside (by decide), .quoted "k.h", by decide +kernel,
    Plan.mem_fullIncludes.2 (by decide +kernel)⟩, by decide +kernel, by decide +kernel⟩

end FileReport

end IncludeAudit
