import IncludeAudit.Proofs.Decision.PrivateHeaders
import IncludeAudit.Proofs.Graph.Reachability

/-!
# Which includes are added

A report adds the includes that serve a use and are not present. A use that is attributed to a file
brings candidates for this file: they are public unless the report warns of them, and the policy may
restrict them to what the reported file reaches. A use of a name that nothing declares brings the
headers known for the name, whatever they are. So what is to hold of all includes that are added has
to be asked for the uses of names only (`forall_added_iff`):

* `mem_added`, `exists_added_symbol`: the includes that are added, and on account of which symbols;
* `added_public_or_warned_iff`: when all of them are public or warned of;
* `added_reached_iff`: when all of them are reached by the file, under the policy that restricts
  additions to these.
-/

namespace IncludeAudit

open Relation (ReflTransGen TransGen)

variable {ctx : DecisionContext} {r done : FileRecord} {report : FileReport} {o : UseOutcome}
  {x : FileName}

namespace Plan

theorem mem_added :
    x ∈ FileReport.includesOf ((make ctx r).report ctx r).add ↔ x ∈ chosen ctx r ∧ x ∉ r.present := by
  have hadd : (FileReport.includesOf ((make ctx r).report ctx r).add).Perm
      (FileReport.includesOf ((make ctx r).addedIncludeLines ++
        (make ctx r).addedDeclarationLines ctx r)) :=
    add_perm.filterMap OutputLine.included?
  rw [hadd.mem_iff, includesOf_append, includesOf_addedIncludeLines,
    includesOf_addedDeclarationLines, List.append_nil, List.mem_filter, Bool.not_eq_true',
    ← Bool.not_eq_true, OrderedSet.contains_eq_true]
  rfl

/-- An include provides the symbols of the uses that it serves. -/
theorem mem_servedBy {k : SymbolKey} : k ∈ (make ctx r).servedBy x ↔
    ∃ o ∈ (make ctx r).outcomes ctx r, o.symbol = k ∧ ServedBy o x := by
  obtain ⟨rows, hresolved, houtcomes, hdecides, hslots⟩ := exists_rows ctx r
  rw [servedBy, List.mem_eraseDups, assigned_eq hresolved hslots, houtcomes]
  simp only [List.filter_map, List.mem_map, List.mem_filter, Function.comp_apply, beq_iff_eq]
  constructor
  · rintro ⟨-, ⟨e, ⟨he, ha⟩, rfl⟩, rfl⟩
    exact ⟨_, ⟨e, he, rfl⟩, DecisionContext.triage_symbol.symm,
      (hdecides e he).servedBy_of_chosen ha⟩
  · rintro ⟨-, ⟨e, he, rfl⟩, rfl, hserved⟩
    exact ⟨_, ⟨e, ⟨he, (hdecides e he).chosen_of_servedBy hserved⟩, rfl⟩,
      DecisionContext.triage_symbol⟩

/-- An include is added on account of a symbol exactly if it serves a use of the symbol and is not
present. -/
theorem exists_added_symbol {k : SymbolKey} :
    (∃ l ∈ ((make ctx r).report ctx r).add, l.included? = some x ∧ k ∈ l.symbols) ↔
      x ∉ r.present ∧ ∃ o ∈ (make ctx r).outcomes ctx r, o.symbol = k ∧ ServedBy o x := by
  constructor
  · rintro ⟨l, hl, hx, hk⟩
    rcases List.mem_append.1 (add_perm.mem_iff.1 hl) with hl | hl
    · obtain ⟨f, hf, rfl⟩ := List.mem_map.1 hl
      obtain rfl : f = x := Option.some.inj hx
      have habsent := (List.mem_filter.1 hf).2
      rw [Bool.not_eq_true', ← Bool.not_eq_true, OrderedSet.contains_eq_true] at habsent
      exact ⟨habsent, mem_servedBy.1 hk⟩
    · obtain ⟨j, -, hline⟩ := List.mem_filterMap.1 hl
      obtain ⟨s, -, rfl⟩ := Option.map_eq_some_iff.1 hline
      cases hx
  · rintro ⟨habsent, hserved⟩
    have hchosen : x ∈ chosen ctx r := by
      obtain ⟨o, ho, -, hs⟩ := hserved
      exact mem_chosen_iff.2 ⟨o, ho, hs⟩
    refine ⟨.ofFile x none ((make ctx r).servedBy x), ?_, rfl, mem_servedBy.2 hserved⟩
    refine add_perm.mem_iff.2 (List.mem_append_left _ (List.mem_map.2 ⟨x, ?_, rfl⟩))
    rw [List.mem_filter, Bool.not_eq_true', ← Bool.not_eq_true, OrderedSet.contains_eq_true]
    exact ⟨hchosen, habsent⟩

/-- What holds of the absent includes that serve attributed uses holds of all that are added exactly
if it holds of those that serve the other uses. -/
theorem forall_added_iff {P : FileName → Prop}
    (hattributed : ∀ o ∈ (make ctx r).outcomes ctx r, o.attributed ≠ none → ∀ x, ServedBy o x →
      x ∉ r.present → P x) :
    (∀ x ∈ FileReport.includesOf ((make ctx r).report ctx r).add, P x) ↔
      ∀ o ∈ (make ctx r).outcomes ctx r, o.attributed = none → ∀ x, o.status = .included x →
        x ∉ r.present → P x := by
  constructor
  · intro hall o ho hnone x hstatus habsent
    have hserved : ServedBy o x := ⟨hstatus, .inr hnone⟩
    exact hall x (mem_added.2 ⟨mem_chosen_iff.2 ⟨o, ho, hserved⟩, habsent⟩)
  · intro hnames x hx
    obtain ⟨hchosen, habsent⟩ := mem_added.1 hx
    obtain ⟨o, ho, hserved⟩ := mem_chosen_iff.1 hchosen
    by_cases hnone : o.attributed = none
    · exact hnames o ho hnone x hserved.1 habsent
    · exact hattributed o ho hnone x hserved habsent

end Plan

namespace FileReport

open Plan (ServedBy)

/-- An absent include that serves an attributed use is usable, or the use is stranded there. -/
theorem isUsable_or_strands (ho : o ∈ (Plan.make ctx r).outcomes ctx r)
    (hattributed : o.attributed ≠ none) (hserved : ServedBy o x) (habsent : x ∉ r.present) :
    ctx.providers.isUsable r.file x = true ∨ ∃ u ∈ r.resolved, ∃ a, ctx.Strands r u a x := by
  obtain ⟨u, hu, slot, hd⟩ := forall₂_exists_left (Plan.forall₂_decided ctx r) o ho
  obtain ⟨a, ha⟩ : ∃ a, u.attribution = some a := by
    rw [← Option.ne_none_iff_exists']
    intro hnone
    exact hattributed (by simp [hd.outcome, Plan.outcomeOf, hnone])
  have hcandidate : x ∈ ctx.providers.publicCandidates a.file r.file := by
    have hoffered := Plan.mem_offered_of_absent ho hserved habsent
    simp only [hd.outcome, DecisionContext.offered, Plan.outcomeOf, ha, Option.map_some] at hoffered
    exact (DecisionContext.mem_allowedCandidates.1 (DecisionContext.mem_usable.1 hoffered).1).1
  cases husable : ctx.providers.isUsable r.file x with
  | true => exact .inl rfl
  | false =>
    have hend := ProviderView.deadEnd_of_mem_publicCandidates hcandidate husable
    have hneed := (hd.of_chosen (hd.chosen_of_servedBy hserved)).1
    have hheader : (ctx.triage r u).privateHeader = some x := by
      rw [DecisionContext.privateHeader_of_need hneed ha]
      exact DecisionContext.deadEnd?_eq_some.2 hend
    exact .inr ⟨u, hu, DecisionContext.privateHeader_eq_some.1 hheader⟩

/-- Every include that is added is one that the file may include, or the report warns of it, exactly
if this holds of the absent headers by which uses of names are served. A warning of such a header is
one that another use asks for. -/
theorem added_public_or_warned_iff (h : finalize ctx r = .ok (report, done)) :
    (∀ x ∈ includesOf report.add,
      ctx.providers.isUsable r.file x = true ∨ .noPublicHeader x ∈ report.diagnostics) ↔
    ∀ o ∈ report.uses, o.attributed = none → ∀ x, o.status = .included x → x ∉ r.present →
      ctx.providers.isUsable r.file x = true ∨ ∃ u ∈ r.resolved, ∃ a, ctx.Strands r u a x := by
  have hwarned (x : FileName) : .noPublicHeader x ∈ report.diagnostics ↔
      ∃ u ∈ r.resolved, ∃ a, ctx.Strands r u a x := by
    simp only [mem_diagnostics_iff h, DecisionContext.privateHeader_eq_some]
  simp only [hwarned]
  obtain rfl := report_of_finalize h
  exact Plan.forall_added_iff fun o ho hattributed x => isUsable_or_strands ho hattributed

/-! ## A header known by name -/

/-- A context in which `NULL` is known to be in `null.h`. -/
def nullContext (visibility : Visibility) (policy : Policy) (edges : List (String × String)) :
    DecisionContext where
  __ := facades
  graph := ⟨edges.map fun e => ⟨.quoted e.1, .quoted e.2, .line 1, none⟩⟩
  providers.map :=
    (({} : ProviderBuilder).addSymbol "NULL" (.quoted "null.h")
      |>.markVisibility (.quoted "null.h") visibility).map
  providers.overlay := {}
  policy := policy

/-- A source file that uses `NULL`, which nothing declares. -/
def nullUser (includes : List String) (others : List ResolvedUse) : FileRecord where
  file := .quoted "f.cc"
  state := .resolving
  includes := includes.map fun name => ⟨.quoted "f.cc", .quoted name, .line 1, none⟩
  resolved := ⟨{ symbol := ⟨"NULL", .definition⟩, location := .plain ⟨.quoted "f.cc", 9, 1⟩ },
    ⟨.full, "not_forward_declarable"⟩, none⟩ :: others

/-- A use of a class that is defined in `null.h`. -/
def classUse : ResolvedUse where
  use := { symbol := ⟨"C", .record⟩, location := .plain ⟨.quoted "f.cc", 10, 1⟩
           hints := { memberAccess := true } }
  verdict := ⟨.full, "complete_type_context"⟩
  attribution := some ⟨none, .quoted "null.h", .nearestDefinition⟩

/-- If the header is private, it is added without a warning. -/
theorem private_header_unwarned :
    ∃ report done,
      finalize (nullContext .priv {} []) (nullUser [] []) = .ok (report, done) ∧
      .quoted "null.h" ∈ includesOf report.add ∧
      (nullContext .priv {} []).providers.isUsable (.quoted "f.cc") (.quoted "null.h") = false ∧
      .noPublicHeader (.quoted "null.h") ∉ report.diagnostics := by
  refine ⟨_, _, rfl, ?_⟩
  decide +kernel

/-- If another use is attributed to the private header, the report warns of it. -/
theorem private_header_warned :
    ∃ report done,
      finalize (nullContext .priv {} []) (nullUser [] [classUse]) = .ok (report, done) ∧
      .quoted "null.h" ∈ includesOf report.add ∧
      .noPublicHeader (.quoted "null.h") ∈ report.diagnostics := by
  obtain ⟨report, done, h, hadded, hstatuses, hprivate⟩ : ∃ report done,
      finalize (nullContext .priv {} []) (nullUser [] [classUse]) = .ok (report, done) ∧
      .quoted "null.h" ∈ includesOf report.add ∧
      (∀ o ∈ report.uses, o.status = .included (.quoted "null.h")) ∧
      (nullContext .priv {} []).providers.isUsable (.quoted "f.cc") (.quoted "null.h") = false := by
    refine ⟨_, _, rfl, ?_⟩
    decide +kernel
  have hs : (nullContext .priv {} []).Strands (nullUser [] [classUse]) classUse
      ⟨none, .quoted "null.h", .nearestDefinition⟩ (.quoted "null.h") := by
    constructor <;> decide +kernel
  have hwarned := (added_public_or_warned_iff h).2 (fun o ho _ x hstatus _ => by
    rw [hstatuses o ho, UseStatus.included.injEq] at hstatus
    subst hstatus
    exact .inr ⟨classUse, .tail _ (.head _), _, hs⟩) _ hadded
  refine ⟨report, done, h, hadded, hwarned.resolve_left ?_⟩
  rw [Bool.not_eq_true]
  exact hprivate

/-! ## What the file reaches -/

/-- An absent include that serves an attributed use is reached, if the policy asks for this. -/
theorem transGen_of_attributed (hp : ctx.policy.transitiveIncludesOnly = true)
    (ho : o ∈ (Plan.make ctx r).outcomes ctx r) (hattributed : o.attributed ≠ none)
    (hserved : ServedBy o x) (habsent : x ∉ r.present) :
    TransGen ctx.graph.Includes r.file x := by
  obtain ⟨u, -, slot, hd⟩ := forall₂_exists_left (Plan.forall₂_decided ctx r) o ho
  have hslot := hd.chosen_of_servedBy hserved
  have hself : x ≠ r.file := by
    rintro rfl
    exact (hd.of_chosen hslot).2.2.1 (hd.sound.of_chosen hslot).2.1
  obtain ⟨a, ha⟩ := Option.ne_none_iff_exists'.1 hattributed
  have hreaches : ctx.graph.reaches r.file x = true := by
    have hoffered := Plan.mem_offered_of_absent ho hserved habsent
    simp only [DecisionContext.offered, ha] at hoffered
    exact (DecisionContext.mem_allowedCandidates.1 (DecisionContext.mem_usable.1 hoffered).1).2 hp
  rcases IncludeGraph.reaches_iff_mem_closure.1 hreaches with heq | hclosure
  · exact absurd heq hself
  · exact IncludeGraph.mem_closure.1 hclosure

/-- Under the policy that restricts additions to what the file reaches, every include that is added
is reached, exactly if this holds of the absent headers by which uses of names are served. -/
theorem added_reached_iff (hp : ctx.policy.transitiveIncludesOnly = true)
    (h : finalize ctx r = .ok (report, done)) :
    (∀ x ∈ includesOf report.add, TransGen ctx.graph.Includes r.file x) ↔
    ∀ o ∈ report.uses, o.attributed = none → ∀ x, o.status = .included x → x ∉ r.present →
      TransGen ctx.graph.Includes r.file x := by
  obtain rfl := report_of_finalize h
  exact Plan.forall_added_iff fun o ho hattributed x => transGen_of_attributed hp ho hattributed

/-- A header that the file does not reach is added for a use of its name. -/
theorem unreached_header_added :
    ∃ report done,
      finalize (nullContext .pub { transitiveIncludesOnly := true } []) (nullUser [] []) =
        .ok (report, done) ∧
      .quoted "null.h" ∈ includesOf report.add ∧
      ¬ TransGen (nullContext .pub { transitiveIncludesOnly := true } []).graph.Includes
        (.quoted "f.cc") (.quoted "null.h") := by
  simp only [← IncludeGraph.mem_closure]
  refine ⟨_, _, rfl, ?_⟩
  decide +kernel

/-- It is added as well if an include of the file reaches it. -/
theorem reached_header_added :
    ∃ report done,
      finalize (nullContext .pub { transitiveIncludesOnly := true }
        [("f.cc", "a.h"), ("a.h", "null.h")]) (nullUser ["a.h"] []) = .ok (report, done) ∧
      .quoted "null.h" ∈ includesOf report.add ∧
      ∀ x ∈ includesOf report.add, TransGen (nullContext .pub { transitiveIncludesOnly := true }
        [("f.cc", "a.h"), ("a.h", "null.h")]).graph.Includes (.quoted "f.cc") x := by
  obtain ⟨report, done, h, hadded, hstatuses, hreached⟩ : ∃ report done,
      finalize (nullContext .pub { transitiveIncludesOnly := true }
        [("f.cc", "a.h"), ("a.h", "null.h")]) (nullUser ["a.h"] []) = .ok (report, done) ∧
      .quoted "null.h" ∈ includesOf report.add ∧
      (∀ o ∈ report.uses, o.status = .included (.quoted "null.h")) ∧
      .quoted "null.h" ∈ (nullContext .pub { transitiveIncludesOnly := true }
        [("f.cc", "a.h"), ("a.h", "null.h")]).graph.closure (.quoted "f.cc") := by
    refine ⟨_, _, rfl, ?_⟩
    decide +kernel
  refine ⟨report, done, h, hadded, (added_reached_iff rfl h).2 fun o ho _ x hstatus _ => ?_⟩
  rw [hstatuses o ho, UseStatus.included.injEq] at hstatus
  subst hstatus
  exact IncludeGraph.mem_closure.1 hreached

end FileReport

end IncludeAudit
