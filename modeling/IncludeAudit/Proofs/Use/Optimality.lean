import IncludeAudit.Proofs.Use.Eligibility
import IncludeAudit.Proofs.Use.Remembering

/-!
# The best declaration

An attribution is told by the table and the distances alone. A declaration stands before another one
if it is found by an earlier rule, or by the same rule and nearer, or as near and discovered earlier
(`standing`). An attributor names the candidate that stands before all others (`IsBest`).

* `standing_eq`, `ruleOf_eq`: the order among the candidates is the one of the table;
* `Query.isBest_attribution?`: what is attributed without a using-declaration;
* `freshAnswer_ok_iff`, `freshAnswer_isBest`: when a new attributor answers, and what.
-/

namespace IncludeAudit

namespace SymbolTable

variable {t : SymbolTable} {reach : Reachability} {u : Use} {c : Candidate}

/-! ## The order of the declarations -/

/-- Some candidate of a use is an explicit instantiation definition. -/
def IsInstantiated (t : SymbolTable) (reach : Reachability) (u : Use) : Prop :=
  ∃ e ∈ t.declarations, t.IsCandidate reach u e ∧ e.isInstantiation .definition = true

instance : Decidable (t.IsInstantiated reach u) :=
  inferInstanceAs (Decidable (∃ e ∈ t.declarations, _))

/-- The first rule that finds a declaration for a use. -/
def ruleOf (t : SymbolTable) (reach : Reachability) (u : Use) (d : Declaration) :
    AttributionRule :=
  d.ruleAmong (decide (t.IsInstantiated reach u))

/-- By what a declaration is chosen: its rule, its distance and its place in the order of
discovery. -/
def standing (t : SymbolTable) (reach : Reachability) (u : Use) (i : DeclId) (d : Declaration) :
    ℕ ×ₗ WithTop ℕ ×ₗ ℕ :=
  toLex ((t.ruleOf reach u d).rank,
    toLex (Candidate.remoteness (reach u.referencingFile d.file), i))

theorem ruleOf_eq (c : Candidate) :
    Candidate.ruleOf (Candidate.ofUse t reach u) c = t.ruleOf reach u c.declaration := by
  have hany : (Candidate.ofUse t reach u).any (Candidate.isInstantiation .definition) =
      decide (t.IsInstantiated reach u) := by
    rw [Bool.eq_iff_iff, List.any_eq_true, decide_eq_true_iff]
    exact (Candidate.areThose_ofUse t reach u).exists_iff fun d _ =>
      d.isInstantiation .definition = true
  rw [Candidate.ruleOf, hany, ruleOf]

theorem standing_eq (h : c ∈ Candidate.ofUse t reach u) :
    Candidate.standing (Candidate.ofUse t reach u) c = t.standing reach u c.id c.declaration := by
  obtain ⟨-, -, hdistance⟩ := (Candidate.areThose_ofUse t reach u c).1 h
  rw [Candidate.standing, Candidate.place, ruleOf_eq, hdistance, standing]

/-! ## The best declaration -/

/-- An answer that names a declaration of a table, and rightly so. -/
structure IsBest (t : SymbolTable) (reach : Reachability) (u : Use) (a : Attribution) (i : DeclId)
    (d : Declaration) : Prop where
  named : a.declaration = some i
  declared : t.declaration? i = some d
  candidate : t.IsCandidate reach u d
  least : ∀ j e, t.declaration? j = some e → t.IsCandidate reach u e →
    t.standing reach u i d ≤ t.standing reach u j e
  rule : a.rule = t.ruleOf reach u d
  file : a.file =
    if d.belongsToSpelling then d.location.spelling.file else d.location.expansion.file

theorem isBest_of_select {chosen : Candidate} {rule : AttributionRule}
    (h : Candidate.select (Candidate.ofUse t reach u) = some (chosen, rule)) :
    t.IsBest reach u ⟨some chosen.id, chosen.declaration.owner, rule⟩ chosen.id
      chosen.declaration := by
  obtain ⟨hleast, hrule⟩ := Candidate.select_spec h
  obtain ⟨hdeclared, hcandidate, -⟩ := (Candidate.areThose_ofUse t reach u chosen).1 hleast.mem
  refine ⟨rfl, hdeclared, hcandidate, fun j e he hcandidate' => ?_, ?_, rfl⟩
  · have hmem : ⟨j, e, reach u.referencingFile e.file⟩ ∈ Candidate.ofUse t reach u :=
      (Candidate.areThose_ofUse t reach u _).2 ⟨he, hcandidate', rfl⟩
    have hle := hleast.le _ hmem
    rwa [standing_eq hleast.mem, standing_eq hmem] at hle
  · rw [← ruleOf_eq, hrule]

end SymbolTable

namespace Query

variable {q : Query} {t : SymbolTable} {reach : Reachability} {a : Attribution}

/-- The use is made through a using-declaration, which settles it. -/
def ThroughUsing (q : Query) : Prop :=
  q.usingIsAUse = true ∧ ∃ ref ∈ q.use.through, ref.isUsingDeclaration = true

theorem usingAnswer?_eq_none :
    Attributor.usingAnswer? q.use q.usingIsAUse = none ↔ ¬ q.ThroughUsing := by
  unfold Attributor.usingAnswer? ThroughUsing
  cases q.use.through <;> simp

theorem rule_of_throughUsing (h : q.ThroughUsing) (ha : q.attribution? t reach = some a) :
    a.rule = .usingDeclaration := by
  obtain ⟨husing, ref, href, hdeclaration⟩ := h
  simp only [attribution?, Attributor.usingAnswer?, Option.mem_def.1 href, husing, hdeclaration,
    Bool.and_self, if_true, Option.some_or, Option.some.injEq] at ha
  rw [← ha]

theorem attribution?_eq_none (h : ¬ q.ThroughUsing) :
    q.attribution? t reach = none ↔ ∀ d ∈ t.declarations, d.symbol ≠ q.use.symbol := by
  rw [attribution?_eq (usingAnswer?_eq_none.2 h), Candidate.attribution?, Option.map_eq_none_iff,
    Candidate.select_eq_none, Candidate.ofUse_eq_nil_iff]

/-- The definitions that a use claims of one specialization are in one file. -/
def ClaimsAgree (q : Query) (t : SymbolTable) (reach : Reachability) : Prop :=
  ∀ d ∈ q.claimed t reach, ∀ first ∈ q.claimed t reach,
    d.claimKey = first.claimKey → d.file = first.file

/-- A use claims nothing of a symbol that nothing declares. -/
theorem claimsAgree_of_undeclared (h : ¬ q.ThroughUsing)
    (hnone : ∀ d ∈ t.declarations, d.symbol ≠ q.use.symbol) : q.ClaimsAgree t reach := by
  rw [ClaimsAgree, claimed_eq (usingAnswer?_eq_none.2 h), Candidate.ofUse_eq_nil_iff.2 hnone]
  exact List.forall_mem_nil _

theorem isBest_attribution? (h : ¬ q.ThroughUsing) (ha : q.attribution? t reach = some a) :
    ∃ i d, t.IsBest reach q.use a i d := by
  rw [attribution?_eq (usingAnswer?_eq_none.2 h), Candidate.attribution?] at ha
  obtain ⟨⟨chosen, rule⟩, hselect, rfl⟩ := Option.map_eq_some_iff.1 ha
  exact ⟨chosen.id, chosen.declaration, SymbolTable.isBest_of_select hselect⟩

end Query

namespace Attributor

variable {t : SymbolTable} {reach : Reachability} {q : Query}

/-- Only claims that are in conflict with each other keep a new attributor from answering. -/
theorem freshAnswer_ok_iff :
    (∃ found, freshAnswer reach t q = .ok found) ↔ q.ClaimsAgree t reach := by
  constructor
  · rintro ⟨found, hfound⟩ d hd first hfirst
    exact (answered_answer (remembers_fresh t reach) q).file_eq hfound hd hfirst
  · exact fun h => ⟨_, freshAnswer_eq_ok h⟩

/-- Without a using-declaration, a new attributor answers exactly if the claims of the use agree. It
finds nothing exactly if nothing declares the symbol. If it names a declaration, it is the best
one. -/
theorem freshAnswer_isBest (h : ¬ q.ThroughUsing) :
    ((∃ found, freshAnswer reach t q = .ok found) ↔ q.ClaimsAgree t reach) ∧
      (freshAnswer reach t q = .ok none ↔ ∀ d ∈ t.declarations, d.symbol ≠ q.use.symbol) ∧
      ∀ a, freshAnswer reach t q = .ok (some a) → ∃ i d, t.IsBest reach q.use a i d := by
  have hok {found} (hfound : freshAnswer reach t q = .ok found) :
      found = q.attribution? t reach :=
    ((answered_answer (remembers_fresh t reach) q).ok hfound).1
  refine ⟨freshAnswer_ok_iff, ⟨fun hnone => ?_, fun hnone => ?_⟩, fun a ha => ?_⟩
  · exact (Query.attribution?_eq_none h).1 (hok hnone).symm
  · obtain ⟨found, hfound⟩ := freshAnswer_ok_iff.2 (Query.claimsAgree_of_undeclared h hnone)
    rw [hfound, hok hfound, (Query.attribution?_eq_none h).2 hnone]
  · exact Query.isBest_attribution? h (hok ha).symm

/-! ## A template that is instantiated -/

/-- The template `S`: `b.h` defines and instantiates it, `a.h` has an `extern template`. -/
def instantiatedTemplate : SymbolTable :=
  let template (file : FileName) (line : Nat) : Declaration :=
    { symbol := ⟨"S", .recordTemplate⟩, location := .plain ⟨file, line, 1⟩ }
  (((SymbolTable.empty []).declare { template (.quoted "b.h") 3 with isDefinition := true }).declare
    ({ template (.quoted "b.h") 9 with specialization := some "int" }.asInstantiation
      .definition)).declare
    ({ template (.quoted "a.h") 3 with specialization := some "int" }.asInstantiation .declaration)

/-- A use of `S<int>` in `f.cc`. -/
def templateQuery : Query where
  use := { symbol := ⟨"S", .recordTemplate⟩, location := .plain ⟨.quoted "f.cc", 9, 1⟩
           specialization := some "int" }
  usingIsAUse := true

theorem freshAnswer_templateQuery :
    freshAnswer twoHeaders.distance instantiatedTemplate templateQuery =
      .ok (some ⟨some 2, .quoted "a.h", .instantiationDeclaration⟩) := by
  rw [freshAnswer_eq_ok (by decide +kernel)]
  exact congrArg Except.ok (by decide +kernel)

/-- The `extern template` is discovered last, and it is the best declaration. -/
theorem freshAnswer_isBest_templateQuery : ¬ templateQuery.ThroughUsing ∧
    ∃ i d, instantiatedTemplate.IsBest twoHeaders.distance templateQuery.use
      ⟨some 2, .quoted "a.h", .instantiationDeclaration⟩ i d := by
  have hdirect : ¬ templateQuery.ThroughUsing := nofun
  exact ⟨hdirect, (freshAnswer_isBest hdirect).2.2 _ freshAnswer_templateQuery⟩

end Attributor

end IncludeAudit
