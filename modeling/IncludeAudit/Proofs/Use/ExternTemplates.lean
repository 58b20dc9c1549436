import IncludeAudit.Proofs.Use.Optimality

/-!
# Extern templates

An `extern template` is preferred if some candidate is an explicit instantiation definition. It is not
asked whether that one is of the same specialization (`IsMatched`). It is if the use names a
specialization that is declared, or if the template is declared without one, since then all candidates
are of one specialization. Otherwise the candidates may be mixed, and the preferred `extern template`
may be one that nothing defines (`Strays`).

* `specialization_eq`: when the candidates of a use are of one specialization;
* `IsBest.isNearestExtern`: the preferred `extern template` is the nearest one;
* `IsBest.isMatched_iff`: when its definition is among the candidates.
-/

namespace IncludeAudit

namespace SymbolTable

variable {t : SymbolTable} {reach : Reachability} {u : Use} {a : Attribution} {i j : DeclId}
  {d e : Declaration}

/-- Some candidate is the explicit instantiation definition of the specialization of a
declaration. -/
def IsMatched (t : SymbolTable) (reach : Reachability) (u : Use) (d : Declaration) : Prop :=
  ∃ e ∈ t.declarations, t.IsCandidate reach u e ∧ e.isInstantiation .definition = true ∧
    e.specialization = d.specialization

instance : Decidable (t.IsMatched reach u d) :=
  inferInstanceAs (Decidable (∃ e ∈ t.declarations, _))

/-- The nearest `extern template` among the candidates, and the first discovered of equally near
ones. -/
structure IsNearestExtern (t : SymbolTable) (reach : Reachability) (u : Use) (i : DeclId)
    (d : Declaration) : Prop where
  declared : t.declaration? i = some d
  candidate : t.IsCandidate reach u d
  isExtern : d.isInstantiation .declaration = true
  least : ∀ j e, t.declaration? j = some e → t.IsCandidate reach u e →
    e.isInstantiation .declaration = true →
    toLex (Candidate.remoteness (reach u.referencingFile d.file), i) ≤
      toLex (Candidate.remoteness (reach u.referencingFile e.file), j)

/-- Nothing is declared of the specialization that the use names, if it names any, nor without a
specialization, and nothing defines the nearest `extern template`. -/
structure Strays (t : SymbolTable) (reach : Reachability) (u : Use) : Prop where
  not_named : ¬ t.DeclaresNamed u
  not_primary : ¬ t.DeclaresPrimary u
  unmatched : ∃ i d, t.IsNearestExtern reach u i d ∧ ¬ t.IsMatched reach u d

theorem IsNearestExtern.unique (hd : t.IsNearestExtern reach u i d)
    (he : t.IsNearestExtern reach u j e) : d = e := by
  have hplace := le_antisymm (hd.least j e he.declared he.candidate he.isExtern)
    (he.least i d hd.declared hd.candidate hd.isExtern)
  have hij : i = j := (Prod.mk.inj (toLex.injective hplace)).2
  exact Option.some.inj (hd.declared.symm.trans (hij ▸ he.declared))

/-- The candidates are of one specialization unless any specialization suits the use. -/
theorem specialization_eq (h : t.DeclaresNamed u ∨ t.DeclaresPrimary u)
    (hd : t.IsCandidate reach u d) (he : t.IsCandidate reach u e) :
    d.specialization = e.specialization := by
  by_cases hnamed : t.DeclaresNamed u
  · rw [hd.eq_named hnamed, he.eq_named hnamed]
  · have hprimary := h.resolve_left hnamed
    rw [hd.eq_primary hnamed hprimary, he.eq_primary hnamed hprimary]

theorem ruleOf_eq_instantiationDeclaration : t.ruleOf reach u d = .instantiationDeclaration ↔
    t.IsInstantiated reach u ∧ d.isInstantiation .declaration = true := by
  rw [ruleOf, Declaration.ruleAmong_eq_instantiationDeclaration, decide_eq_true_iff]

/-- Among declarations of one rule the best one is the nearest. -/
theorem IsBest.isNearestExtern (h : t.IsBest reach u a i d)
    (hrule : a.rule = .instantiationDeclaration) : t.IsNearestExtern reach u i d := by
  have hd := h.rule.symm.trans hrule
  obtain ⟨hinstantiated, hform⟩ := ruleOf_eq_instantiationDeclaration.1 hd
  refine ⟨h.declared, h.candidate, hform, fun j e he hcandidate hform' => ?_⟩
  have hle := h.least j e he hcandidate
  have he := ruleOf_eq_instantiationDeclaration.2 ⟨hinstantiated, hform'⟩
  rw [standing, standing, hd, he, Prod.Lex.toLex_le_toLex] at hle
  exact hle.elim (fun hlt => absurd hlt (lt_irrefl _)) And.right

/-- The definition of the preferred `extern template` is among the candidates unless they are of
several specializations. -/
theorem IsBest.isMatched_iff (h : t.IsBest reach u a i d)
    (hrule : a.rule = .instantiationDeclaration) :
    t.IsMatched reach u d ↔ ¬ t.Strays reach u := by
  have hnearest := h.isNearestExtern hrule
  constructor
  · intro hmatched hstrays
    obtain ⟨j, e, he, hunmatched⟩ := hstrays.unmatched
    exact hunmatched (hnearest.unique he ▸ hmatched)
  · intro hstrays
    by_contra hunmatched
    have hnone : ¬ (t.DeclaresNamed u ∨ t.DeclaresPrimary u) := by
      intro hone
      obtain ⟨⟨e, he, hcandidate, hdefinition⟩, -⟩ :=
        ruleOf_eq_instantiationDeclaration.1 (h.rule.symm.trans hrule)
      exact hunmatched ⟨e, he, hcandidate, hdefinition,
        specialization_eq hone hcandidate h.candidate⟩
    rw [not_or] at hnone
    exact hstrays ⟨hnone.1, hnone.2, i, d, hnearest, hunmatched⟩

end SymbolTable

namespace Attributor

variable {t : SymbolTable} {reach : Reachability} {steps : List Step} {reply : Reply}
  {a : Attribution}

/-- Whenever and on whatever table an attributor prefers an `extern template`, some candidate is an
explicit instantiation definition, and one is of the same specialization unless the use strays. -/
theorem extern_isMatched_iff (hreply : reply ∈ replies reach t {} steps)
    (hok : reply.result = .ok (some a)) (hrule : a.rule = .instantiationDeclaration) :
    ∃ i d, reply.table.IsBest reach reply.query.use a i d ∧
      d.isInstantiation .declaration = true ∧ reply.table.IsInstantiated reach reply.query.use ∧
      (reply.table.IsMatched reach reply.query.use d ↔
        ¬ reply.table.Strays reach reply.query.use) := by
  obtain ⟨b, c, hanswered⟩ := answered_of_mem_replies (remembers_fresh t reach) hreply
  obtain ⟨ha, -⟩ := hanswered.ok hok
  have hdirect : ¬ reply.query.ThroughUsing := fun hthrough =>
    absurd (Query.rule_of_throughUsing hthrough ha.symm) (by rw [hrule]; exact nofun)
  obtain ⟨i, d, hbest⟩ := Query.isBest_attribution? hdirect ha.symm
  obtain ⟨hinstantiated, hform⟩ :=
    SymbolTable.ruleOf_eq_instantiationDeclaration.1 (hbest.rule.symm.trans hrule)
  exact ⟨i, d, hbest, hform, hinstantiated, hbest.isMatched_iff hrule⟩

/-- The definition of `S<int>` is a candidate, too. -/
theorem isMatched_templateQuery : ∃ reply,
    reply ∈ replies twoHeaders.distance instantiatedTemplate {} [.ask templateQuery] ∧
      reply.result = .ok (some ⟨some 2, .quoted "a.h", .instantiationDeclaration⟩) ∧
      ∃ i d, reply.table.IsBest twoHeaders.distance reply.query.use
        ⟨some 2, .quoted "a.h", .instantiationDeclaration⟩ i d ∧
        reply.table.IsMatched twoHeaders.distance reply.query.use d := by
  let reply : Reply := ⟨instantiatedTemplate, templateQuery,
    freshAnswer twoHeaders.distance instantiatedTemplate templateQuery⟩
  have hreply : reply ∈ replies twoHeaders.distance instantiatedTemplate {} [.ask templateQuery] :=
    List.mem_singleton.2 rfl
  obtain ⟨i, d, hbest, -, -, hmatched⟩ :=
    extern_isMatched_iff hreply freshAnswer_templateQuery rfl
  refine ⟨reply, hreply, freshAnswer_templateQuery, i, d, hbest,
    hmatched.2 fun hstrays => hstrays.not_named ?_⟩
  have hnamed : instantiatedTemplate.DeclaresNamed templateQuery.use := by decide +kernel
  exact hnamed

/-! ## A template with two specializations -/

/-- The template `S`: `a.h` has an `extern template` for `int`, `b.h` instantiates it for `char`. -/
def mixedTemplate : SymbolTable :=
  let template (file : FileName) (args : String) : Declaration :=
    { symbol := ⟨"S", .recordTemplate⟩, location := .plain ⟨file, 3, 1⟩
      specialization := some args }
  ((SymbolTable.empty []).declare
      ((template (.quoted "a.h") "int").asInstantiation .declaration)).declare
    ((template (.quoted "b.h") "char").asInstantiation .definition)

/-- A use of `S` in `f.cc` that names no specialization. -/
def nameQuery : Query where
  use := { symbol := ⟨"S", .recordTemplate⟩, location := .plain ⟨.quoted "f.cc", 9, 1⟩ }
  usingIsAUse := true

/-- The `extern template` for `int` is preferred, although only `char` is instantiated. -/
theorem not_isMatched_nameQuery :
    ∃ d, freshAnswer twoHeaders.distance mixedTemplate nameQuery =
        .ok (some ⟨some 0, .quoted "a.h", .instantiationDeclaration⟩) ∧
      mixedTemplate.declaration? 0 = some d ∧
      ¬ mixedTemplate.IsMatched twoHeaders.distance nameQuery.use d := by
  refine ⟨_, ?_, rfl, by decide +kernel⟩
  rw [freshAnswer_eq_ok (by decide +kernel)]
  exact congrArg Except.ok (by decide +kernel)

end Attributor

end IncludeAudit
