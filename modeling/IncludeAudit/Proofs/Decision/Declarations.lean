import IncludeAudit.Proofs.Decision.Lines
import IncludeAudit.Proofs.Decision.Outcomes

/-!
# The declarations of a report

A symbol that needs a declaration in the file keeps the first line that declares it, and gets a new
one if there is none:

* `symbolsOf_full_perm`, `nodup_symbolsOf_full`, `mem_symbolsOf_full`: the full list declares each
  needed symbol once;
* `mem_symbolsOf_add`: for which symbols a line is added;
* `count_symbolsOf_remove_lt`: for which symbols a line stays.
-/

namespace IncludeAudit

/-- The symbols that a list of lines declares. -/
def FileReport.symbolsOf (lines : List OutputLine) : List SymbolKey :=
  lines.filterMap (·.declared?)

namespace Plan

open FileReport (symbolsOf)

variable {ctx : DecisionContext} {r : FileRecord} {p : Plan} {k : SymbolKey}

/-- The symbols that the file declares by hand, line by line. -/
def declaredSymbols (ctx : DecisionContext) (r : FileRecord) : List SymbolKey :=
  (presentDeclarations ctx r).map (·.1.symbol)

/-- Every declaration has its symbol in the table, so none is left out. -/
theorem map_fst_presentDeclarations (ctx : DecisionContext) (r : FileRecord) :
    (presentDeclarations ctx r).map (·.1) = r.forwardDecls.filterMap ctx.table.declaration? := by
  rw [presentDeclarations]
  induction r.forwardDecls with
  | nil => rfl
  | cons id ids ih =>
    cases hd : ctx.table.declaration? id with
    | none => simpa [hd] using ih
    | some d =>
      obtain ⟨s, hs⟩ := SymbolTable.exists_symbol hd
      simpa [hd, hs] using ih

theorem declaredSymbols_eq (ctx : DecisionContext) (r : FileRecord) :
    declaredSymbols ctx r = (r.forwardDecls.filterMap ctx.table.declaration?).map (·.symbol) := by
  rw [← map_fst_presentDeclarations, List.map_map]
  rfl

theorem find?_of_mem_presentDeclarations {e : Declaration × Symbol}
    (he : e ∈ presentDeclarations ctx r) : ctx.table.find? e.1.symbol = some e.2 := by
  obtain ⟨id, -, h⟩ := List.mem_filterMap.1 he
  obtain ⟨d, -, h⟩ := Option.bind_eq_some_iff.1 h
  obtain ⟨s, hs, h⟩ := Option.bind_eq_some_iff.1 h
  cases h
  exact hs

/-! ## The symbols of the lines of each part -/

theorem symbolsOf_append (as bs : List OutputLine) :
    symbolsOf (as ++ bs) = symbolsOf as ++ symbolsOf bs :=
  List.filterMap_append

theorem symbolsOf_eq_nil {lines : List OutputLine} (h : ∀ l ∈ lines, l.isDeclaration = false) :
    symbolsOf lines = [] :=
  List.filterMap_eq_nil_iff.2 fun l hl => by simpa [OutputLine.isDeclaration] using h l hl

theorem symbolsOf_presentIncludeLines :
    symbolsOf (p.presentIncludeLines r).1 = [] ∧ symbolsOf (p.presentIncludeLines r).2 = [] := by
  constructor <;>
  · refine symbolsOf_eq_nil fun l hl => ?_
    obtain ⟨d, -, rfl⟩ := List.mem_map.1 hl
    rfl

theorem symbolsOf_addedIncludeLines : symbolsOf p.addedIncludeLines = [] := by
  refine symbolsOf_eq_nil fun l hl => ?_
  obtain ⟨f, -, rfl⟩ := List.mem_map.1 hl
  rfl

theorem key_of_mem_presentDeclarations {e : Declaration × Symbol}
    (he : e ∈ presentDeclarations ctx r) : e.2.key = e.1.symbol :=
  SymbolTable.key_of_find? (find?_of_mem_presentDeclarations he)

theorem declared?_of_mem_presentDeclarations {e : Declaration × Symbol}
    (he : e ∈ presentDeclarations ctx r) (lines : Option LineSpan) :
    (OutputLine.ofSymbol e.2 lines).declared? = some e.1.symbol :=
  congrArg some (key_of_mem_presentDeclarations he)

/-- The lines of present declarations declare their symbols. -/
theorem symbolsOf_map {es : List (Declaration × Symbol)}
    (h : ∀ e ∈ es, e ∈ presentDeclarations ctx r) :
    symbolsOf (es.map fun e => .ofSymbol e.2 (some e.1.lines)) = es.map (·.1.symbol) := by
  rw [FileReport.symbolsOf, List.filterMap_map, ← List.filterMap_eq_map]
  refine List.filterMap_congr fun e he => ?_
  exact declared?_of_mem_presentDeclarations (h e he) (some e.1.lines)

/-- Which declarations of the file stay and which go. -/
def splitDeclarations (p : Plan) (ctx : DecisionContext) (r : FileRecord) :
    List (Declaration × Symbol) × List (Declaration × Symbol) :=
  splitFirst (·.1.symbol) (p.forwardNeeded ctx r).contains [] (presentDeclarations ctx r)

theorem symbolsOf_presentDeclarationLines :
    symbolsOf (p.presentDeclarationLines ctx r).1 =
        (p.splitDeclarations ctx r).1.map (·.1.symbol) ∧
      symbolsOf (p.presentDeclarationLines ctx r).2 =
        (p.splitDeclarations ctx r).2.map (·.1.symbol) :=
  ⟨symbolsOf_map fun _ he => mem_splitFirst_iff.2 (.inl he),
    symbolsOf_map fun _ he => mem_splitFirst_iff.2 (.inr he)⟩

theorem symbolsOf_addedDeclarationLines :
    symbolsOf (p.addedDeclarationLines ctx r) =
      ((p.forwardNeeded ctx r).toList.filter fun k => !(declaredSymbols ctx r).contains k).filter
        fun k => (ctx.table.find? k).isSome := by
  rw [FileReport.symbolsOf, addedDeclarationLines, List.filterMap_filterMap]
  refine (List.filterMap_congr fun k _ => ?_).trans (congrFun List.filterMap_eq_filter _)
  cases hs : ctx.table.find? k with
  | none => simp [Option.guard, hs]
  | some s => simp [Option.guard, hs, OutputLine.ofSymbol, OutputLine.declared?,
      SymbolTable.key_of_find? hs]

/-! ## The symbols of each list -/

/-- The full list declares what stays and what is added. -/
theorem symbolsOf_full_perm :
    (symbolsOf (p.report ctx r).full).Perm
      ((p.splitDeclarations ctx r).1.map (·.1.symbol) ++
        symbolsOf (p.addedDeclarationLines ctx r)) := by
  have h : (symbolsOf (p.report ctx r).full).Perm (symbolsOf _) :=
    full_perm.filterMap OutputLine.declared?
  rwa [symbolsOf_append, symbolsOf_append, symbolsOf_append, symbolsOf_presentIncludeLines.1,
    symbolsOf_addedIncludeLines, symbolsOf_presentDeclarationLines.1] at h

theorem nodup_symbolsOf_full : (symbolsOf (p.report ctx r).full).Nodup := by
  rw [symbolsOf_full_perm.nodup_iff, symbolsOf_addedDeclarationLines, List.nodup_append]
  refine ⟨nodup_keys_splitFirst _, ((p.forwardNeeded ctx r).nodup.filter _).filter _, ?_⟩
  intro k hk j hj hkj
  have hdeclared : k ∈ declaredSymbols ctx r := (mem_keys_splitFirst.1 hk).1
  have hnew := (List.mem_filter.1 (List.mem_filter.1 hj).1).2
  rw [← hkj] at hnew
  simp [hdeclared] at hnew

/-- The full list declares each needed symbol that the table has. -/
theorem mem_symbolsOf_full (hk : k ∈ p.forwardNeeded ctx r)
    (hs : (ctx.table.find? k).isSome = true) : k ∈ symbolsOf (p.report ctx r).full := by
  rw [symbolsOf_full_perm.mem_iff, List.mem_append, symbolsOf_addedDeclarationLines,
    List.mem_filter, List.mem_filter]
  by_cases hd : k ∈ declaredSymbols ctx r
  · refine .inl (mem_keys_splitFirst.2 ⟨hd, ?_, List.not_mem_nil⟩)
    exact OrderedSet.contains_eq_true.2 hk
  · exact .inr ⟨⟨hk, by simpa using hd⟩, hs⟩

/-- A line is added for each needed symbol that the file does not declare. -/
theorem mem_symbolsOf_add :
    k ∈ symbolsOf (p.report ctx r).add ↔ k ∈ p.forwardNeeded ctx r ∧
      k ∉ declaredSymbols ctx r ∧ (ctx.table.find? k).isSome = true := by
  have h : (symbolsOf (p.report ctx r).add).Perm (symbolsOf _) :=
    add_perm.filterMap OutputLine.declared?
  rw [h.mem_iff, symbolsOf_append, symbolsOf_addedIncludeLines, List.nil_append,
    symbolsOf_addedDeclarationLines, List.mem_filter, List.mem_filter, and_assoc]
  simp [OrderedSet.mem_def]

theorem symbolsOf_remove_perm :
    (symbolsOf (p.report ctx r).remove).Perm
      ((p.splitDeclarations ctx r).2.map (·.1.symbol)) := by
  have h : (symbolsOf (p.report ctx r).remove).Perm (symbolsOf _) :=
    remove_perm.filterMap OutputLine.declared?
  rwa [symbolsOf_append, symbolsOf_presentIncludeLines.2, List.nil_append,
    symbolsOf_presentDeclarationLines.2] at h

/-- Not all lines that declare a symbol go exactly if the file has one and needs one. -/
theorem count_symbolsOf_remove_lt :
    (symbolsOf (p.report ctx r).remove).count k < (declaredSymbols ctx r).count k ↔
      k ∈ declaredSymbols ctx r ∧ k ∈ p.forwardNeeded ctx r := by
  rw [symbolsOf_remove_perm.count_eq]
  refine count_splitFirst_snd_lt.trans ?_
  simp [declaredSymbols]

end Plan

end IncludeAudit
