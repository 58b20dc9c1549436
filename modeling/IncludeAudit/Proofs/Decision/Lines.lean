import IncludeAudit.Decision.Finalize
import Mathlib.Data.List.Perm.Basic

/-!
# The lines of a report

A report lists the includes that the file has in the end, each once, and what has to change for it:

* `report_of_finalize`, `finalize_of_resolving`: the report of a record;
* `mem_keys_splitFirst`, `mem_splitFirst_fst`: what stays of present lines;
* `mem_fullIncludes`, `nodup_fullIncludes`: the full list has what was kept;
* `add_eq_nil`, `remove_eq_nil`: when nothing is added and when nothing is removed;
* `presentDeclarations_eq_nil`: a report on includes only is about a file that declares nothing.
-/

namespace IncludeAudit

/-! ## Splitting off what stays -/

section SplitFirst

variable {α κ : Type} [DecidableEq κ] {key : α → κ} {wanted : κ → Bool} {seen : List κ}
  {as : List α} {k : κ}

theorem splitFirst_cons (a : α) (as : List α) :
    splitFirst key wanted seen (a :: as) =
      if wanted (key a) = true ∧ key a ∉ seen then
        (a :: (splitFirst key wanted (key a :: seen) as).1,
          (splitFirst key wanted (key a :: seen) as).2)
      else
        ((splitFirst key wanted (key a :: seen) as).1,
          a :: (splitFirst key wanted (key a :: seen) as).2) := by
  simp [splitFirst]

/-- Each wanted key that was not met before is kept. -/
theorem mem_keys_splitFirst :
    k ∈ (splitFirst key wanted seen as).1.map key ↔
      k ∈ as.map key ∧ wanted k = true ∧ k ∉ seen := by
  induction as generalizing seen with
  | nil => simp [splitFirst]
  | cons a as ih =>
    rw [splitFirst_cons]
    by_cases hk : k = key a
    · subst hk
      split
      · rename_i h
        simp [h]
      · rename_i h
        rw [ih]
        simp only [List.mem_cons, true_or, not_true_eq_false, and_false, List.map_cons, true_and,
          false_iff]
        exact h
    · have hcons : k ∈ (a :: as).map key ↔ k ∈ as.map key := by simp [hk]
      have hseen : k ∉ key a :: seen ↔ k ∉ seen := by simp [hk]
      rw [hcons, ← hseen, ← ih]
      split
      · simp [hk]
      · rfl

/-- Of the elements with a key the first is kept, if one is. -/
theorem find?_splitFirst {a : α} (ha : a ∈ (splitFirst key wanted seen as).1) :
    as.find? (key · == key a) = some a := by
  induction as generalizing seen with
  | nil => simp [splitFirst] at ha
  | cons b as ih =>
    rw [splitFirst_cons] at ha
    by_cases hk : key b = key a
    · -- The first with the key: no other is kept, since the key counts as met after it.
      have hnew : a ∉ (splitFirst key wanted (key b :: seen) as).1 := fun hmem =>
        (mem_keys_splitFirst.1 (List.mem_map_of_mem hmem)).2.2 (by rw [hk]; exact List.mem_cons_self)
      split at ha
      · obtain rfl := (List.mem_cons.1 ha).resolve_right hnew
        exact List.find?_cons_of_pos (by simp)
      · exact absurd ha hnew
    · rw [List.find?_cons_of_neg (by simpa using hk)]
      split at ha
      · rcases List.mem_cons.1 ha with rfl | ha
        · exact absurd rfl hk
        · exact ih ha
      · exact ih ha

/-- The kept elements are the first ones with wanted keys. -/
theorem mem_splitFirst_fst {a : α} : a ∈ (splitFirst key wanted [] as).1 ↔
    wanted (key a) = true ∧ as.find? (key · == key a) = some a := by
  constructor
  · exact fun ha => ⟨(mem_keys_splitFirst.1 (List.mem_map_of_mem ha)).2.1, find?_splitFirst ha⟩
  · rintro ⟨hwanted, hfirst⟩
    have hkey : key a ∈ (splitFirst key wanted [] as).1.map key := mem_keys_splitFirst.2
      ⟨List.mem_map_of_mem (List.mem_of_find?_eq_some hfirst), hwanted, List.not_mem_nil⟩
    obtain ⟨b, hb, hba⟩ := List.mem_map.1 hkey
    have hfirst' := find?_splitFirst hb
    rw [hba, hfirst] at hfirst'
    rwa [Option.some.inj hfirst']

theorem nodup_keys_splitFirst (as : List α) :
    ((splitFirst key wanted seen as).1.map key).Nodup := by
  induction as generalizing seen with
  | nil => simp [splitFirst]
  | cons a as ih =>
    rw [splitFirst_cons]
    split
    · rw [List.map_cons, List.nodup_cons, mem_keys_splitFirst]
      exact ⟨by simp, ih⟩
    · exact ih

/-- All elements are kept exactly if their keys are wanted, new and distinct. -/
theorem splitFirst_snd_eq_nil :
    (splitFirst key wanted seen as).2 = [] ↔
      (as.map key).Nodup ∧ ∀ a ∈ as, wanted (key a) = true ∧ key a ∉ seen := by
  induction as generalizing seen with
  | nil => simp [splitFirst]
  | cons a as ih =>
    rw [splitFirst_cons]
    split
    · rename_i h
      rw [List.forall_mem_cons]
      simp only [ih, List.map_cons, List.nodup_cons, List.mem_map, List.mem_cons, not_or]
      constructor
      · rintro ⟨hnd, hall⟩
        exact ⟨⟨fun ⟨b, hb, he⟩ => (hall b hb).2.1 he, hnd⟩, h, fun b hb =>
          ⟨(hall b hb).1, (hall b hb).2.2⟩⟩
      · rintro ⟨⟨hnew, hnd⟩, -, hall⟩
        exact ⟨hnd, fun b hb => ⟨(hall b hb).1, fun he => hnew ⟨b, hb, he⟩, (hall b hb).2⟩⟩
    · rename_i h
      simp only [List.cons_ne_nil, List.forall_mem_cons, false_iff, not_and]
      exact fun _ hw => absurd hw h

/-- Splitting loses nothing. -/
theorem splitFirst_perm :
    ((splitFirst key wanted seen as).1 ++ (splitFirst key wanted seen as).2).Perm as := by
  induction as generalizing seen with
  | nil => simp [splitFirst]
  | cons a as ih =>
    rw [splitFirst_cons]
    split
    · exact ih.cons a
    · exact List.perm_middle.trans (ih.cons a)

theorem mem_splitFirst_iff {a : α} :
    a ∈ as ↔ a ∈ (splitFirst key wanted seen as).1 ∨ a ∈ (splitFirst key wanted seen as).2 := by
  rw [← List.mem_append, splitFirst_perm.mem_iff]

/-- Not all elements with a key go exactly if one stays. -/
theorem count_splitFirst_snd_lt :
    ((splitFirst key wanted seen as).2.map key).count k < (as.map key).count k ↔
      k ∈ as.map key ∧ wanted k = true ∧ k ∉ seen := by
  have hperm : ((splitFirst key wanted seen as).1 ++ (splitFirst key wanted seen as).2).Perm as :=
    splitFirst_perm
  have hcount := (hperm.map key).count_eq k
  rw [List.map_append, List.count_append] at hcount
  rw [← mem_keys_splitFirst, ← List.count_pos_iff]
  omega

end SplitFirst

/-- A report is that of the plan for its record. -/
theorem FileReport.report_of_finalize {ctx : DecisionContext} {r done : FileRecord}
    {report : FileReport} (h : finalize ctx r = .ok (report, done)) :
    report = (Plan.make ctx r).report ctx r := by
  unfold finalize at h
  split at h <;> cases h
  rfl

namespace Plan

variable {ctx : DecisionContext} {r : FileRecord} {f : FileName}

/-! ## The three lists -/

/-- A record that is resolving gets the report of its plan. -/
theorem finalize_of_resolving (h : r.state = .resolving) :
    finalize ctx r = .ok ((make ctx r).report ctx r, { r with state := .finalized }) := by
  have hmoves : r.transition .finalized = .ok { r with state := .finalized } := by
    rw [FileRecord.transition, h]
    rfl
  rw [finalize, hmoves]

theorem add_perm {p : Plan} :
    (p.report ctx r).add.Perm (p.addedIncludeLines ++ p.addedDeclarationLines ctx r) :=
  List.mergeSort_perm _ _

theorem remove_perm {p : Plan} : (p.report ctx r).remove.Perm
    ((p.presentIncludeLines r).2 ++ (p.presentDeclarationLines ctx r).2) :=
  List.mergeSort_perm _ _

theorem full_perm {p : Plan} : (p.report ctx r).full.Perm
    ((p.presentIncludeLines r).1 ++ p.addedIncludeLines ++ (p.presentDeclarationLines ctx r).1 ++
      p.addedDeclarationLines ctx r) :=
  List.mergeSort_perm _ _

/-! ## Includes -/

@[simp]
theorem included?_ofFile (f : FileName) (lines : Option LineSpan) (symbols : List SymbolKey) :
    (OutputLine.ofFile f lines symbols).included? = some f :=
  rfl

@[simp]
theorem included?_ofSymbol (s : Symbol) (lines : Option LineSpan) :
    (OutputLine.ofSymbol s lines).included? = none :=
  rfl

theorem includesOf_append (as bs : List OutputLine) :
    FileReport.includesOf (as ++ bs) = FileReport.includesOf as ++ FileReport.includesOf bs :=
  List.filterMap_append

theorem includesOf_presentIncludeLines (p : Plan) (r : FileRecord) :
    FileReport.includesOf (p.presentIncludeLines r).1 =
      (splitFirst (·.included) p.kept.contains [] r.includes).1.map (·.included) := by
  simp [FileReport.includesOf, presentIncludeLines, Function.comp_def]

theorem includesOf_addedIncludeLines (p : Plan) :
    FileReport.includesOf p.addedIncludeLines =
      p.cover.desired.toList.filter fun f => !p.present.contains f := by
  simp [FileReport.includesOf, addedIncludeLines, Function.comp_def]

theorem includesOf_presentDeclarationLines (p : Plan) (ctx : DecisionContext) (r : FileRecord) :
    FileReport.includesOf (p.presentDeclarationLines ctx r).1 = [] := by
  simp [FileReport.includesOf, presentDeclarationLines]

theorem includesOf_addedDeclarationLines (p : Plan) (ctx : DecisionContext) (r : FileRecord) :
    FileReport.includesOf (p.addedDeclarationLines ctx r) = [] := by
  simp only [FileReport.includesOf, List.filterMap_eq_nil_iff, addedDeclarationLines,
    List.mem_filterMap]
  rintro l ⟨k, -, hk⟩
  obtain ⟨s, -, rfl⟩ := Option.map_eq_some_iff.1 hk
  rfl

/-- The full list has the present includes that stay and the added ones, in writing order. -/
theorem fullIncludes_perm (p : Plan) (ctx : DecisionContext) (r : FileRecord) :
    (p.report ctx r).fullIncludes.Perm
      ((splitFirst (·.included) p.kept.contains [] r.includes).1.map (·.included) ++
        p.cover.desired.toList.filter fun f => !p.present.contains f) := by
  have h : (p.report ctx r).fullIncludes.Perm (FileReport.includesOf _) :=
    full_perm.filterMap OutputLine.included?
  rwa [includesOf_append, includesOf_append, includesOf_append, includesOf_presentIncludeLines,
    includesOf_addedIncludeLines, includesOf_presentDeclarationLines,
    includesOf_addedDeclarationLines, List.append_nil, List.append_nil] at h

theorem mem_present : f ∈ r.present ↔ f ∈ r.includes.map (·.included) :=
  OrderedSet.mem_ofList

theorem mem_held : f ∈ (make ctx r).held ↔ f ∈ r.present ∧ ctx.isProtected r f = true :=
  OrderedSet.mem_filter

theorem mem_kept_of_isProtected (hpresent : f ∈ r.present) (h : ctx.isProtected r f = true) :
    f ∈ (make ctx r).kept :=
  OrderedSet.mem_union.2 (.inr (mem_held.2 ⟨hpresent, h⟩))

/-- The full list has the includes that the file has in the end. -/
theorem mem_fullIncludes :
    f ∈ ((make ctx r).report ctx r).fullIncludes ↔ f ∈ (make ctx r).kept := by
  rw [(fullIncludes_perm _ ctx r).mem_iff, List.mem_append, mem_keys_splitFirst, ← mem_present,
    List.mem_filter]
  simp only [List.not_mem_nil, not_false_eq_true, and_true, OrderedSet.contains_eq_true,
    ← OrderedSet.mem_def, Bool.not_eq_true', ← Bool.not_eq_true]
  constructor
  · rintro (⟨-, hk⟩ | ⟨hd, -⟩)
    · exact hk
    · exact OrderedSet.mem_union.2 (.inl hd)
  · intro hk
    by_cases hp : f ∈ r.present
    · exact .inl ⟨hp, hk⟩
    · rcases OrderedSet.mem_union.1 hk with hd | hh
      · exact .inr ⟨hd, hp⟩
      · exact absurd (mem_held.1 hh).1 hp

/-- The full list has each include once. -/
theorem nodup_fullIncludes : ((make ctx r).report ctx r).fullIncludes.Nodup := by
  rw [(fullIncludes_perm _ ctx r).nodup_iff, List.nodup_append]
  refine ⟨nodup_keys_splitFirst _, (make ctx r).cover.desired.nodup.filter _, ?_⟩
  intro f hf g hg hfg
  have hp : f ∈ r.present := mem_present.2 (mem_keys_splitFirst.1 hf).1
  have hn := (List.mem_filter.1 hg).2
  rw [← hfg, Bool.not_eq_true', ← Bool.not_eq_true, OrderedSet.contains_eq_true] at hn
  exact hn hp

/-- No include is added exactly if all that are chosen are present. -/
theorem addedIncludeLines_eq_nil :
    (make ctx r).addedIncludeLines = [] ↔ ∀ f ∈ (make ctx r).cover.desired, f ∈ r.present := by
  simp only [addedIncludeLines, List.map_eq_nil_iff, List.filter_eq_nil_iff, Bool.not_eq_true',
    Bool.not_eq_false, OrderedSet.contains_eq_true]
  rfl

/-- No include is removed exactly if none is written twice and all that are present are kept. -/
theorem removedIncludeLines_eq_nil :
    ((make ctx r).presentIncludeLines r).2 = [] ↔
      (r.includes.map (·.included)).Nodup ∧ ∀ f ∈ r.present, f ∈ (make ctx r).kept := by
  simp only [presentIncludeLines, List.map_eq_nil_iff, splitFirst_snd_eq_nil, List.not_mem_nil,
    not_false_eq_true, and_true, OrderedSet.contains_eq_true, mem_present, List.forall_mem_map]

/-! ## Declarations -/

/-- A report without a declaration among its lines is about a file without forward declarations. -/
theorem presentDeclarations_eq_nil {p : Plan}
    (hfull : ∀ l ∈ (p.report ctx r).full, l.isDeclaration = false)
    (hremove : ∀ l ∈ (p.report ctx r).remove, l.isDeclaration = false) :
    presentDeclarations ctx r = [] := by
  refine List.eq_nil_iff_forall_not_mem.2 fun e he => ?_
  have hdecl : (OutputLine.ofSymbol e.2 (some e.1.lines)).isDeclaration = true := rfl
  have hsplit : e ∈ (splitFirst (·.1.symbol) (p.forwardNeeded ctx r).contains []
      (presentDeclarations ctx r)).1 ∨ e ∈ (splitFirst (·.1.symbol)
      (p.forwardNeeded ctx r).contains [] (presentDeclarations ctx r)).2 :=
    mem_splitFirst_iff.1 he
  rcases hsplit with hs | hg
  · have hl : OutputLine.ofSymbol e.2 (some e.1.lines) ∈ (p.report ctx r).full := by
      refine full_perm.mem_iff.2 ?_
      simp only [List.mem_append]
      exact .inl (.inr (List.mem_map_of_mem hs))
    rw [hfull _ hl] at hdecl
    cases hdecl
  · have hl : OutputLine.ofSymbol e.2 (some e.1.lines) ∈ (p.report ctx r).remove := by
      exact remove_perm.mem_iff.2 (List.mem_append_right _ (List.mem_map_of_mem hg))
    rw [hremove _ hl] at hdecl
    cases hdecl

/-- No declaration is added to a file without declarations exactly if none of a known symbol is
needed. -/
theorem addedDeclarationLines_eq_nil {p : Plan} (hd : presentDeclarations ctx r = [])
    (hk : ∀ k ∈ p.forwardNeeded ctx r, (ctx.table.find? k).isSome = true) :
    p.addedDeclarationLines ctx r = [] ↔ ∀ k, k ∉ p.forwardNeeded ctx r := by
  have hlines : p.addedDeclarationLines ctx r = (p.forwardNeeded ctx r).toList.filterMap fun k =>
      (ctx.table.find? k).map fun s => .ofSymbol s none := by
    simp [addedDeclarationLines, hd]
  rw [hlines, List.filterMap_eq_nil_iff]
  refine forall_congr' fun k => ⟨fun h hn => ?_, fun h hn => absurd hn h⟩
  have hnone := h hn
  rw [Option.map_eq_none_iff] at hnone
  have hsome := hk k hn
  rw [hnone] at hsome
  cases hsome

/-- A report that adds includes only adds no declaration. -/
theorem addedDeclarationLines_eq_nil_of_lines {p : Plan}
    (hadd : ∀ l ∈ (p.report ctx r).add, l.isDeclaration = false) :
    p.addedDeclarationLines ctx r = [] := by
  refine List.eq_nil_iff_forall_not_mem.2 fun l hl => ?_
  have hdecl : l.isDeclaration = true := by
    obtain ⟨k, -, hk⟩ := List.mem_filterMap.1 hl
    obtain ⟨s, -, rfl⟩ := Option.map_eq_some_iff.1 hk
    rfl
  rw [hadd l (add_perm.mem_iff.2 (List.mem_append_right _ hl))] at hdecl
  cases hdecl

theorem add_eq_nil {p : Plan} :
    (p.report ctx r).add = [] ↔
      p.addedIncludeLines = [] ∧ p.addedDeclarationLines ctx r = [] := by
  rw [← List.append_eq_nil_iff, ← List.length_eq_zero_iff, add_perm.length_eq,
    List.length_eq_zero_iff]

theorem remove_eq_nil {p : Plan} :
    (p.report ctx r).remove = [] ↔
      (p.presentIncludeLines r).2 = [] ∧ (p.presentDeclarationLines ctx r).2 = [] := by
  rw [← List.append_eq_nil_iff, ← List.length_eq_zero_iff, remove_perm.length_eq,
    List.length_eq_zero_iff]

end Plan

end IncludeAudit
