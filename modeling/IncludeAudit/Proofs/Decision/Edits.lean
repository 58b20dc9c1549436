import IncludeAudit.Proofs.Decision.Declarations
import IncludeAudit.Proofs.Line.Order

/-!
# What a report does to a file

The three lists of a report describe one edit of the file (`ConsistentEdit`): each line of the file
is either in the full list or removed, and what else is in the full list is added. `finalize_edit`
says that a record which is resolving always gets such a report.

* `full_filter_isNone`: what is added;
* `standing_perm`: what becomes of the lines of the file.
-/

namespace IncludeAudit

/-- What a line says and where it stands. -/
def OutputLine.place (l : OutputLine) : LineContent × Option LineSpan :=
  (l.content, l.lines)

/-- The lines of a file: its include directives and its forward declarations. -/
def Plan.standingLines (ctx : DecisionContext) (r : FileRecord) : List OutputLine :=
  (r.includes.map fun d => .ofFile d.included (some d.lines) []) ++
    (presentDeclarations ctx r).map fun e => .ofSymbol e.2 (some e.1.lines)

/-- A report whose lists describe one edit of the file. Lines are told apart by what they say and
where they stand, and are counted as often as they occur. -/
structure ConsistentEdit (ctx : DecisionContext) (r : FileRecord) (report : FileReport) : Prop where
  /-- Every forward declaration of the file is one of its lines. -/
  declared : List.Forall₂
    (fun id e => ctx.table.declaration? id = some e.1 ∧ ctx.table.find? e.1.symbol = some e.2)
    r.forwardDecls (Plan.presentDeclarations ctx r)
  /-- Exactly what does not stand in the file is added. -/
  added : report.full.filter (·.lines.isNone) = report.add
  /-- What stands in the file is kept or removed. -/
  accounted : ((report.full.filter (·.lines.isSome) ++ report.remove).map (·.place)).Perm
    ((Plan.standingLines ctx r).map (·.place))
  /-- The edit gives the full list. -/
  applied : ((report.full ++ report.remove).map (·.place)).Perm
    ((Plan.standingLines ctx r ++ report.add).map (·.place))
  nodup_includes : report.fullIncludes.Nodup
  nodup_symbols : (FileReport.symbolsOf report.full).Nodup
  includes : ∀ f, f ∈ report.fullIncludes ↔
    f ∈ Plan.chosen ctx r ∨ f ∈ r.present ∧ ctx.isProtected r f = true
  /-- Written lines go by group and text. -/
  sorted : ∀ lines ∈ [report.add, report.full], lines.Pairwise fun a b =>
    (Plan.lineOrder ctx r).group a < (Plan.lineOrder ctx r).group b ∨
      (Plan.lineOrder ctx r).group a = (Plan.lineOrder ctx r).group b ∧ a.text ≤ b.text
  /-- Removed lines go as they stand in the file. -/
  sorted_remove : report.remove.Pairwise fun a b => ∃ s t, a.lines = some s ∧ b.lines = some t ∧
    (s.first < t.first ∨ s.first = t.first ∧ s.last ≤ t.last)

namespace Plan

open scoped List

variable {ctx : DecisionContext} {r : FileRecord} {p : Plan} {l : OutputLine}

/-! ## Where the lines of each part stand -/

theorem lines_presentIncludeLines
    (h : l ∈ (p.presentIncludeLines r).1 ∨ l ∈ (p.presentIncludeLines r).2) :
    l.lines.isSome = true := by
  rcases h with h | h <;>
  · obtain ⟨d, -, rfl⟩ := List.mem_map.1 h
    rfl

theorem lines_presentDeclarationLines
    (h : l ∈ (p.presentDeclarationLines ctx r).1 ∨ l ∈ (p.presentDeclarationLines ctx r).2) :
    l.lines.isSome = true := by
  rcases h with h | h <;>
  · obtain ⟨e, -, rfl⟩ := List.mem_map.1 h
    rfl

theorem lines_added (h : l ∈ p.addedIncludeLines ++ p.addedDeclarationLines ctx r) :
    l.lines = none := by
  rcases List.mem_append.1 h with h | h
  · obtain ⟨f, -, rfl⟩ := List.mem_map.1 h
    rfl
  · obtain ⟨k, -, h⟩ := List.mem_filterMap.1 h
    obtain ⟨s, -, rfl⟩ := Option.map_eq_some_iff.1 h
    rfl

theorem lines_remove (h : l ∈ (p.report ctx r).remove) : l.lines.isSome = true := by
  rcases List.mem_append.1 (remove_perm.mem_iff.1 h) with h | h
  · exact lines_presentIncludeLines (.inr h)
  · exact lines_presentDeclarationLines (.inr h)

/-! ## What is added and what stays -/

/-- The lines that stay, and those that are added. -/
theorem full_filter (q : OutputLine → Bool) : (p.report ctx r).full.filter q =
    (lineOrder ctx r).sort ((p.presentIncludeLines r).1.filter q ++ p.addedIncludeLines.filter q ++
      (p.presentDeclarationLines ctx r).1.filter q ++ (p.addedDeclarationLines ctx r).filter q) := by
  rw [report]
  simp only [LineOrder.filter_sort, List.filter_append]

theorem full_filter_isNone :
    (p.report ctx r).full.filter (·.lines.isNone) = (p.report ctx r).add := by
  have hincludes : (p.presentIncludeLines r).1.filter (·.lines.isNone) = [] :=
    List.filter_eq_nil_iff.2 fun l hl => by
      simpa using Option.isSome_iff_ne_none.1 (lines_presentIncludeLines (.inl hl))
  have hdeclarations : (p.presentDeclarationLines ctx r).1.filter (·.lines.isNone) = [] :=
    List.filter_eq_nil_iff.2 fun l hl => by
      simpa using Option.isSome_iff_ne_none.1 (lines_presentDeclarationLines (.inl hl))
  have hadded : ∀ l ∈ p.addedIncludeLines ++ p.addedDeclarationLines ctx r,
      l.lines.isNone = true := fun l hl => by rw [lines_added hl]; rfl
  rw [List.forall_mem_append] at hadded
  rw [full_filter, hincludes, hdeclarations, List.filter_eq_self.2 hadded.1,
    List.filter_eq_self.2 hadded.2, List.nil_append, List.append_nil]
  rfl

theorem full_filter_isSome : ((p.report ctx r).full.filter (·.lines.isSome)).Perm
    ((p.presentIncludeLines r).1 ++ (p.presentDeclarationLines ctx r).1) := by
  have hadded : ∀ l ∈ p.addedIncludeLines ++ p.addedDeclarationLines ctx r,
      ¬ l.lines.isSome = true := fun l hl => by rw [lines_added hl]; simp
  rw [List.forall_mem_append] at hadded
  rw [full_filter, List.filter_eq_self.2 fun l hl => lines_presentIncludeLines (.inl hl),
    List.filter_eq_self.2 fun l hl => lines_presentDeclarationLines (.inl hl),
    List.filter_eq_nil_iff.2 hadded.1, List.filter_eq_nil_iff.2 hadded.2, List.append_nil,
    List.append_nil]
  exact LineOrder.sort_perm _ _

/-! ## What becomes of the lines of the file -/

theorem place_presentIncludeLines (p : Plan) (r : FileRecord) :
    (((p.presentIncludeLines r).1 ++ (p.presentIncludeLines r).2).map (·.place)).Perm
      ((r.includes.map fun d => OutputLine.ofFile d.included (some d.lines) []).map (·.place)) := by
  have hsplit : ((splitFirst (·.included) p.kept.contains [] r.includes).1 ++
      (splitFirst (·.included) p.kept.contains [] r.includes).2).Perm r.includes :=
    splitFirst_perm
  have hplace := hsplit.map fun d => (LineContent.directive d.included, some d.lines)
  rw [List.map_append] at hplace ⊢
  simpa [presentIncludeLines, OutputLine.place, OutputLine.ofFile, Function.comp_def] using hplace

theorem presentDeclarationLines_perm (p : Plan) (ctx : DecisionContext) (r : FileRecord) :
    ((p.presentDeclarationLines ctx r).1 ++ (p.presentDeclarationLines ctx r).2).Perm
      ((presentDeclarations ctx r).map fun e => .ofSymbol e.2 (some e.1.lines)) := by
  have hsplit : ((p.splitDeclarations ctx r).1 ++ (p.splitDeclarations ctx r).2).Perm
      (presentDeclarations ctx r) :=
    splitFirst_perm
  have hlines := hsplit.map fun e => OutputLine.ofSymbol e.2 (some e.1.lines)
  rwa [List.map_append] at hlines

/-- Each line of the file is kept or removed. -/
theorem standing_perm :
    (((p.report ctx r).full.filter (·.lines.isSome) ++ (p.report ctx r).remove).map (·.place)).Perm
      ((standingLines ctx r).map (·.place)) := by
  have hparts : ((p.report ctx r).full.filter (·.lines.isSome) ++ (p.report ctx r).remove).Perm
      (((p.presentIncludeLines r).1 ++ (p.presentIncludeLines r).2) ++
        ((p.presentDeclarationLines ctx r).1 ++ (p.presentDeclarationLines ctx r).2)) := by
    refine (full_filter_isSome.append remove_perm).trans ?_
    rw [List.append_assoc, List.append_assoc]
    exact (List.perm_append_comm_assoc _ _ _).append_left _
  refine (hparts.map _).trans ?_
  have hplaces := (place_presentIncludeLines p r).append
    ((presentDeclarationLines_perm p ctx r).map (·.place))
  rwa [← List.map_append, ← List.map_append] at hplaces

/-- What is kept, removed and added is what stands in the file and what is added. -/
theorem applied_perm :
    (((p.report ctx r).full ++ (p.report ctx r).remove).map (·.place)).Perm
      ((standingLines ctx r ++ (p.report ctx r).add).map (·.place)) := by
  have hfull : ((p.report ctx r).full.filter (·.lines.isSome) ++ (p.report ctx r).add).Perm
      (p.report ctx r).full := by
    rw [← full_filter_isNone]
    have hneither := List.filter_append_perm (·.lines.isSome) (p.report ctx r).full
    simpa using hneither
  have hlists : ((p.report ctx r).full ++ (p.report ctx r).remove).Perm
      ((p.report ctx r).full.filter (·.lines.isSome) ++ (p.report ctx r).remove ++
        (p.report ctx r).add) := by
    refine (hfull.symm.append_right _).trans ?_
    rw [List.append_assoc, List.append_assoc]
    exact List.perm_append_comm.append_left _
  calc ((p.report ctx r).full ++ (p.report ctx r).remove).map (·.place)
    _ ~ ((p.report ctx r).full.filter (·.lines.isSome) ++ (p.report ctx r).remove ++
        (p.report ctx r).add).map (·.place) := hlists.map _
    _ = ((p.report ctx r).full.filter (·.lines.isSome) ++ (p.report ctx r).remove).map (·.place) ++
        (p.report ctx r).add.map (·.place) := List.map_append
    _ ~ (standingLines ctx r).map (·.place) ++ (p.report ctx r).add.map (·.place) :=
      standing_perm.append_right _
    _ = (standingLines ctx r ++ (p.report ctx r).add).map (·.place) := List.map_append.symm

theorem forall₂_presentDeclarations
    (h : ∀ id ∈ r.forwardDecls, (ctx.table.declaration? id).isSome = true) :
    List.Forall₂
      (fun id e => ctx.table.declaration? id = some e.1 ∧ ctx.table.find? e.1.symbol = some e.2)
      r.forwardDecls (presentDeclarations ctx r) := by
  rw [presentDeclarations]
  generalize r.forwardDecls = ids at h
  induction ids with
  | nil => exact .nil
  | cons id ids ih =>
    obtain ⟨hid, hids⟩ := List.forall_mem_cons.1 h
    obtain ⟨d, hd⟩ := Option.isSome_iff_exists.1 hid
    obtain ⟨s, hs⟩ := SymbolTable.exists_symbol hd
    rw [List.filterMap_cons_some (b := (d, s)) (by simp [hd, hs])]
    exact .cons ⟨hd, hs⟩ (ih hids)

end Plan

/-- A record that is resolving gets a report which is one edit of its file. -/
theorem finalize_edit {ctx : DecisionContext} {r : FileRecord} (hstate : r.state = .resolving)
    (hdeclared : ∀ id ∈ r.forwardDecls, (ctx.table.declaration? id).isSome = true) :
    ∃ report done, finalize ctx r = .ok (report, done) ∧ ConsistentEdit ctx r report := by
  have hmoves : r.transition .finalized = .ok { r with state := .finalized } := by
    rw [FileRecord.transition, hstate]
    rfl
  refine ⟨(Plan.make ctx r).report ctx r, { r with state := .finalized }, ?_, ?_⟩
  · rw [finalize, hmoves]
  · exact
    { declared := Plan.forall₂_presentDeclarations hdeclared
      added := Plan.full_filter_isNone
      accounted := Plan.standing_perm
      applied := Plan.applied_perm
      nodup_includes := Plan.nodup_fullIncludes
      nodup_symbols := Plan.nodup_symbolsOf_full
      includes := fun f => by
        rw [Plan.mem_fullIncludes, Plan.kept, OrderedSet.mem_union, Plan.mem_held]
        rfl
      sorted := by
        intro lines hlines
        rcases List.mem_pair.1 hlines with rfl | rfl <;>
        exact LineOrder.pairwise_sort _ _
      sorted_remove := OutputLine.pairwise_standsBefore fun l hl =>
        Plan.lines_remove (List.mem_mergeSort.2 hl) }

/-! ## Repeated lines -/

/-- A hand-written declaration of the class `S`. -/
def declarationAt (line : Nat) : Declaration where
  symbol := ⟨"S", .record⟩
  location := .plain ⟨.quoted "f.cc", line, 1⟩

/-- A class that is declared twice. -/
def twiceDeclared : DecisionContext where
  table := ((SymbolTable.empty []).declare (declarationAt 3)).declare (declarationAt 4)
  graph := {}
  providers := ⟨.empty, {}⟩
  policy := {}
  keepGlobs := .none
  associated := []
  associatedIncludes := {}
  precompiled := none

/-- A source file that keeps a header and includes it twice, and uses a class that it declares
twice. -/
def repeater : FileRecord where
  file := .quoted "f.cc"
  state := .resolving
  includes := [⟨.quoted "f.cc", .quoted "a.h", .line 1, some .keep⟩,
    ⟨.quoted "f.cc", .quoted "a.h", .line 2, none⟩]
  forwardDecls := [0, 1]
  resolved := [⟨{ symbol := ⟨"S", .record⟩, location := .plain ⟨.quoted "f.cc", 9, 1⟩
                  hints := { pointerOrReference := true } },
    ⟨.forwardDeclarable, "pointer_or_reference"⟩,
    some ⟨some 0, .quoted "f.cc", .nearestDeclaration⟩⟩]
  pragmas := { keep := OrderedSet.empty.insert (.quoted "a.h") }

/-- The report on it accounts for each of the four lines. -/
theorem finalize_repeater :
    (repeater.state = .resolving ∧
        ∀ id ∈ repeater.forwardDecls, (twiceDeclared.table.declaration? id).isSome = true) ∧
      ∃ report done, finalize twiceDeclared repeater = .ok (report, done) ∧
        ConsistentEdit twiceDeclared repeater report :=
  ⟨⟨rfl, by decide⟩, finalize_edit rfl (by decide)⟩

end IncludeAudit
