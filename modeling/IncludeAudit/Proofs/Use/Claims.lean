import IncludeAudit.Proofs.Use.Ranking
import IncludeAudit.Proofs.Use.Registration

/-!
# Claimed specializations

The explicit instantiation definitions that the candidates of a use claim: the reachable ones, and
the chosen candidate if it is one. An answer depends on the candidates only, and `ofUse_congr` says
on what they depend.

* `lists_claims`: what an attributor enters for a use is what the candidates claim;
* `mem_preferring`, `mem_suiting`: what is preferred among candidates;
* `ofUse_eq_nil`: there are candidates if anything declares the symbol of the use.
-/

namespace IncludeAudit

namespace Candidate

variable {t t' : SymbolTable} {reach : Reachability} {u w : Use} {c chosen : Candidate}
  {cs : List Candidate} {p : Candidate → Bool} {d : Declaration} {specialization : Option String}

/-! ## Candidates of a use -/

/-- What is preferred is chosen if there is any of it. -/
theorem mem_preferring : c ∈ preferring p cs ↔ c ∈ cs ∧ ((∃ e ∈ cs, p e = true) → p c = true) := by
  unfold preferring
  dsimp only
  split
  · rename_i hnone
    refine (and_iff_left fun ⟨e, he, hp⟩ => ?_).symm
    rw [List.isEmpty_iff, List.filter_eq_nil_iff] at hnone
    exact absurd hp (hnone e he)
  · rename_i hsome
    rw [List.mem_filter]
    refine and_congr_right fun _ => ⟨fun hp _ => hp, fun hp => hp ?_⟩
    rw [List.isEmpty_iff, List.filter_eq_nil_iff] at hsome
    simpa using hsome

/-- A specialization is named, and some of the candidates have it. -/
def Named (specialization : Option String) (cs : List Candidate) : Prop :=
  specialization ≠ none ∧ ∃ e ∈ cs, isOf specialization e = true

theorem suiting_of_named (h : Named specialization cs) :
    suiting specialization cs = cs.filter (isOf specialization) := by
  cases specialization with
  | none => exact absurd rfl h.1
  | some args =>
    obtain ⟨-, e, he, hp⟩ := h
    refine if_neg fun hnone => ?_
    rw [List.isEmpty_iff, List.filter_eq_nil_iff] at hnone
    exact hnone e he hp

theorem suiting_of_not_named (h : ¬ Named specialization cs) :
    suiting specialization cs = preferring (isOf none) cs := by
  cases specialization with
  | none => rfl
  | some args =>
    refine if_pos ?_
    rw [List.isEmpty_iff, List.filter_eq_nil_iff]
    exact fun e he hp => h ⟨nofun, e, he, hp⟩

/-- The specialization that is named is preferred, and none is preferred to any other. -/
theorem mem_suiting : c ∈ suiting specialization cs ↔ c ∈ cs ∧
    (Named specialization cs → isOf specialization c = true) ∧
    (¬ Named specialization cs → (∃ e ∈ cs, isOf none e = true) → isOf none c = true) := by
  by_cases h : Named specialization cs
  · rw [suiting_of_named h, List.mem_filter]
    exact and_congr_right fun _ =>
      ⟨fun hp => ⟨fun _ => hp, fun hnot => absurd h hnot⟩, fun hp => hp.1 h⟩
  · rw [suiting_of_not_named h, mem_preferring]
    exact and_congr_right fun _ =>
      ⟨fun hp => ⟨fun hnamed => absurd hnamed h, fun _ => hp⟩, fun hp => hp.2 h⟩

theorem mem_of_mem_preferring (h : c ∈ preferring p cs) : c ∈ cs :=
  (mem_preferring.1 h).1

theorem mem_of_mem_suiting (h : c ∈ suiting specialization cs) : c ∈ cs :=
  (mem_suiting.1 h).1

/-- A preference leaves something to choose from. -/
theorem preferring_eq_nil : preferring p cs = [] ↔ cs = [] := by
  unfold preferring
  dsimp only
  split
  · rfl
  · rename_i hsome
    rw [List.isEmpty_iff] at hsome
    exact iff_of_false hsome fun hnil => hsome (by rw [hnil]; rfl)

theorem suiting_eq_nil : suiting specialization cs = [] ↔ cs = [] := by
  by_cases h : Named specialization cs
  · rw [suiting_of_named h]
    obtain ⟨-, e, he, hp⟩ := h
    exact iff_of_false (fun hnil => List.filter_eq_nil_iff.1 hnil e he hp) (List.ne_nil_of_mem he)
  · rw [suiting_of_not_named h]
    exact preferring_eq_nil

/-- A use has candidates if anything declares its symbol. -/
theorem ofUse_eq_nil : ofUse t reach u = [] ↔ t.candidates u.symbol = [] := by
  rw [ofUse, preferring_eq_nil, suiting_eq_nil, ofSymbol, List.map_eq_nil_iff]

theorem declaration?_of_mem_ofUse (h : c ∈ ofUse t reach u) :
    t.declaration? c.id = some c.declaration := by
  have hall := mem_of_mem_suiting (mem_of_mem_preferring h)
  obtain ⟨⟨id, d⟩, hd, rfl⟩ := List.mem_map.1 hall
  exact (SymbolTable.mem_declarationsWhere.1 hd).1

/-- Uses that ask the same of tables in which their symbol has the same declarations have the same
candidates. -/
theorem ofUse_congr (hq : Question.ofUse t u = Question.ofUse t' w)
    (hc : t.candidates u.symbol = t'.candidates u.symbol) :
    ofUse t reach u = ofUse t' reach w := by
  simp only [Question.ofUse, Question.mk.injEq] at hq
  obtain ⟨hsymbol, hspecialization, hfile, -, -⟩ := hq
  rw [ofUse, ofUse, ofSymbol, ofSymbol, hspecialization, hfile, hc, hsymbol]

/-! ## Claims -/

/-- The definitions that the candidates claim. -/
def claimed (cs : List Candidate) : List Declaration :=
  (cs.filter fun c => c.isInstantiation .definition &&
    (c.isReachable || (select cs).map (·.1) == some c)).map (·.declaration)

/-- What is entered for a use is what its candidates claim. -/
theorem lists_claims {rule : AttributionRule}
    (hselect : select (ofUse t reach u) = some (chosen, rule)) :
    t.Lists (claims chosen (ofUse t reach u)) d ↔ d ∈ claimed (ofUse t reach u) := by
  have hmem : ∀ {c}, c ∈ (if chosen.isInstantiation .definition then [chosen] else []) ++
      definitions (ofUse t reach u) ↔ c ∈ ofUse t reach u ∧
        c.isInstantiation .definition = true ∧ (c.isReachable = true ∨ chosen = c) := by
    intro c
    rw [List.mem_append, definitions, List.mem_mergeSort, List.mem_filter, Bool.and_eq_true]
    constructor
    · rintro (hc | ⟨hc, hreach, hdefinition⟩)
      · split at hc
        · rename_i hdefinition
          obtain rfl := List.mem_singleton.1 hc
          exact ⟨(select_spec hselect).1.mem, hdefinition, .inr rfl⟩
        · cases hc
      · exact ⟨hc, hdefinition, .inl hreach⟩
    · rintro ⟨hc, hdefinition, hreach | rfl⟩
      · exact .inr ⟨hc, hreach, hdefinition⟩
      · rw [if_pos hdefinition]
        exact .inl (.head _)
  constructor
  · rintro ⟨id, hid, hd⟩
    obtain ⟨c, hc, rfl⟩ := List.mem_map.1 hid
    obtain ⟨hc, hdefinition, hreach⟩ := hmem.1 hc
    rw [declaration?_of_mem_ofUse hc] at hd
    refine List.mem_map.2 ⟨c, List.mem_filter.2 ⟨hc, ?_⟩, Option.some.inj hd⟩
    simpa [hselect, hdefinition] using hreach
  · intro hd
    obtain ⟨c, hc, rfl⟩ := List.mem_map.1 hd
    obtain ⟨hc, hreach⟩ := List.mem_filter.1 hc
    refine ⟨c.id, List.mem_map_of_mem (hmem.2 ⟨hc, ?_⟩), declaration?_of_mem_ofUse hc⟩
    simpa [hselect] using hreach

end Candidate

end IncludeAudit
