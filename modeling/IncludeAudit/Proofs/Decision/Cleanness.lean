import IncludeAudit.Proofs.Decision.Lines
import IncludeAudit.Proofs.Decision.Providers

/-!
# When nothing has to change

A report is clean if it adds nothing and removes nothing. `isClean_iff` says what this comes down to
for a file that includes each header once and declares nothing: its includes are enough for its
uses, each of them is protected or serves a use, and no declaration is needed.
-/

namespace IncludeAudit

namespace Plan

variable {ctx : DecisionContext} {r : FileRecord}

/-- No declaration is added to a file without declarations exactly if none is proposed for a use. -/
theorem addedDeclarationLines_eq_nil_iff (hdeclared : presentDeclarations ctx r = [])
    (hknown : ∀ o ∈ (make ctx r).outcomes ctx r, (ctx.table.find? o.symbol).isSome = true) :
    (make ctx r).addedDeclarationLines ctx r = [] ↔
      ∀ o ∈ (make ctx r).outcomes ctx r, o.status ≠ .forwardDeclared := by
  rw [addedDeclarationLines_eq_nil hdeclared fun k hk => ?_]
  · simp only [mem_forwardNeeded]
    exact ⟨fun h o ho hs => h _ ⟨o, ho, rfl, hs⟩, fun h k ⟨o, ho, _, hs⟩ => h o ho hs⟩
  · obtain ⟨o, ho, rfl, -⟩ := mem_forwardNeeded.1 hk
    exact hknown o ho

theorem isClean_iff (ht : ctx.policy.tolerateTransitive = false)
    (hnodup : (r.includes.map (·.included)).Nodup) (hdeclared : presentDeclarations ctx r = [])
    (hknown : ∀ o ∈ ((make ctx r).report ctx r).uses, (ctx.table.find? o.symbol).isSome = true) :
    ((make ctx r).report ctx r).isClean = true ↔
      (∀ o ∈ ((make ctx r).report ctx r).uses, ∀ f, ServedBy o f →
        ∃ c ∈ ctx.offered r o, c ∈ r.present) ∧
      (∀ f ∈ r.present, ctx.isProtected r f = true ∨
        ∃ o ∈ ((make ctx r).report ctx r).uses, ServedBy o f) ∧
      ∀ o ∈ ((make ctx r).report ctx r).uses, o.status ≠ .forwardDeclared := by
  have huses : ((make ctx r).report ctx r).uses = (make ctx r).outcomes ctx r := rfl
  rw [huses] at hknown ⊢
  have hgone : ((make ctx r).presentDeclarationLines ctx r).2 = [] := by
    simp [presentDeclarationLines, hdeclared, splitFirst]
  have hkept : (∀ f ∈ r.present, f ∈ (make ctx r).kept) ↔ ∀ f ∈ r.present,
      ctx.isProtected r f = true ∨ ∃ o ∈ (make ctx r).outcomes ctx r, ServedBy o f := by
    refine forall₂_congr fun f hf => ?_
    rw [← mem_chosen_iff, kept, OrderedSet.mem_union, mem_held, or_comm, and_iff_right hf]
    rfl
  rw [FileReport.isClean, Bool.and_eq_true, List.isEmpty_iff, List.isEmpty_iff, add_eq_nil,
    remove_eq_nil, addedIncludeLines_eq_nil, removedIncludeLines_eq_nil,
    addedDeclarationLines_eq_nil_iff hdeclared hknown, hgone, hkept, ← chosen_present_iff ht]
  simp only [hnodup, true_and, and_true]
  constructor
  · rintro ⟨⟨hpresent, hforward⟩, hused⟩
    exact ⟨hpresent, hused, hforward⟩
  · rintro ⟨hpresent, hused, hforward⟩
    exact ⟨⟨hpresent, hforward⟩, hused⟩

/-! ## Files without uses -/

/-- The line of a directive that serves no use. -/
def unusedLine (d : IncludeDirective) : OutputLine :=
  .ofFile d.included (some d.lines) []

/-- A file without uses and declarations keeps what is protected. -/
theorem report_of_no_uses {stay go : List IncludeDirective} (hr : r.resolved = [])
    (hdeclared : presentDeclarations ctx r = [])
    (hsplit : splitFirst (·.included) (ctx.protectedIncludes r).contains [] r.includes =
      (stay, go)) :
    ((make ctx r).report ctx r).add = [] ∧
      ((make ctx r).report ctx r).remove =
        (go.map unusedLine).mergeSort OutputLine.standsBefore ∧
      ((make ctx r).report ctx r).full = (lineOrder ctx r).sort (stay.map unusedLine) := by
  have hmake : make ctx r =
      { file := r.file, present := r.present, drafts := [], cover := ⟨{}, []⟩
        held := ctx.protectedIncludes r } := by
    simp [make, hr, Cover.choose_nil]
  have hkept : (make ctx r).kept.contains = (ctx.protectedIncludes r).contains := by
    funext f
    rw [Bool.eq_iff_iff, OrderedSet.contains_eq_true, OrderedSet.contains_eq_true, kept, hmake,
      OrderedSet.mem_union]
    exact or_iff_right OrderedSet.not_mem_empty
  have hserved : ∀ f, (make ctx r).servedBy f = [] := fun f => by
    rw [hmake]
    rfl
  have hforward : ((make ctx r).forwardNeeded ctx r).toList = [] := by
    rw [hmake]
    rfl
  have hadded : (make ctx r).addedIncludeLines = [] := by
    rw [hmake]
    rfl
  simp only [report, presentIncludeLines, hkept, hsplit, hserved, presentDeclarationLines,
    hdeclared, splitFirst, hadded, addedDeclarationLines, hforward, List.map_nil, List.filter_nil,
    List.filterMap_nil, List.append_nil, LineOrder.sort, List.mergeSort_nil, true_and]
  exact ⟨rfl, rfl⟩

end Plan

end IncludeAudit
