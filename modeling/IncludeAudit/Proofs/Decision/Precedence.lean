import IncludeAudit.Proofs.Decision.Edits

/-!
# Declarations ahead of their uses

A report that leaves a use to a declaration keeps the first hand-written declaration of the symbol
in the file, on whatever line, and adds a new one only if there is none:

* `lines_of_declared`: where the declaration of a symbol stands;
* `declaresInTime_iff`: when it is ahead of the use.
-/

namespace IncludeAudit

/-- A line of the full list declares the symbol of the use. It is new or starts no later than the
use. -/
def FileReport.DeclaresInTime (report : FileReport) (o : UseOutcome) : Prop :=
  ∃ l ∈ report.full, l.declared? = some o.symbol ∧
    (l ∈ report.add ∨ ∃ span ∈ l.lines, span.first ≤ o.line)

instance (report : FileReport) (o : UseOutcome) : Decidable (report.DeclaresInTime o) :=
  inferInstanceAs (Decidable (∃ l ∈ report.full, l.declared? = some o.symbol ∧
    (l ∈ report.add ∨ ∃ span ∈ l.lines, span.first ≤ o.line)))

namespace Plan

variable {ctx : DecisionContext} {r : FileRecord} {p : Plan} {l : OutputLine} {k : SymbolKey}

/-- The first hand-written declaration of a symbol in the file. -/
def firstDeclaration? (ctx : DecisionContext) (r : FileRecord) (k : SymbolKey) :
    Option Declaration :=
  (r.forwardDecls.filterMap ctx.table.declaration?).find? (·.symbol == k)

theorem firstDeclaration?_eq : firstDeclaration? ctx r k =
    ((presentDeclarations ctx r).find? (·.1.symbol == k)).map (·.1) := by
  rw [firstDeclaration?, ← map_fst_presentDeclarations, List.find?_map]
  rfl

theorem firstDeclaration?_eq_none (h : k ∉ declaredSymbols ctx r) :
    firstDeclaration? ctx r k = none := by
  rw [declaredSymbols_eq] at h
  refine List.find?_eq_none.2 fun d hd hk => h ?_
  rw [← beq_iff_eq.1 hk]
  exact List.mem_map_of_mem hd

/-- The line that declares a symbol stands where the file declares the symbol first. It stands
nowhere if the file does not declare the symbol. -/
theorem lines_of_declared (hl : l ∈ (p.report ctx r).full) (hk : l.declared? = some k) :
    l.lines = (firstDeclaration? ctx r k).map (·.lines) := by
  rw [full_perm.mem_iff, List.mem_append, List.mem_append, List.mem_append] at hl
  rcases hl with ((hl | hl) | hl) | hl
  · obtain ⟨d, -, rfl⟩ := List.mem_map.1 hl
    cases hk
  · obtain ⟨f, -, rfl⟩ := List.mem_map.1 hl
    cases hk
  · obtain ⟨e, he, rfl⟩ := List.mem_map.1 hl
    have hpresent : e ∈ presentDeclarations ctx r := mem_splitFirst_iff.2 (.inl he)
    obtain rfl : e.1.symbol = k :=
      Option.some.inj ((declared?_of_mem_presentDeclarations hpresent _).symm.trans hk)
    rw [firstDeclaration?_eq, find?_splitFirst he]
    rfl
  · obtain ⟨j, hj, hline⟩ := List.mem_filterMap.1 hl
    obtain ⟨s, hs, rfl⟩ := Option.map_eq_some_iff.1 hline
    obtain rfl : s.key = k := Option.some.inj hk
    have hnew : (!(declaredSymbols ctx r).contains j) = true := (List.mem_filter.1 hj).2
    rw [Bool.not_eq_true', ← Bool.not_eq_true, List.contains_iff_mem,
      ← SymbolTable.key_of_find? hs] at hnew
    rw [firstDeclaration?_eq_none hnew]
    rfl

theorem isSome_find?_of_mem_symbolsOf_full (h : k ∈ FileReport.symbolsOf (p.report ctx r).full) :
    (ctx.table.find? k).isSome = true := by
  rw [symbolsOf_full_perm.mem_iff, List.mem_append, symbolsOf_addedDeclarationLines] at h
  rcases h with h | h
  · obtain ⟨e, he, rfl⟩ := List.mem_map.1 h
    have hpresent : e ∈ presentDeclarations ctx r := mem_splitFirst_iff.2 (.inl he)
    rw [find?_of_mem_presentDeclarations hpresent]
    rfl
  · exact (List.mem_filter.1 h).2

/-- A line of the full list is added exactly if it stands nowhere. -/
theorem mem_add_iff_of_mem_full (hl : l ∈ (p.report ctx r).full) :
    l ∈ (p.report ctx r).add ↔ l.lines = none := by
  rw [← full_filter_isNone, List.mem_filter, Option.isNone_iff_eq_none]
  exact and_iff_right hl

end Plan

open Plan (firstDeclaration?)

variable {ctx : DecisionContext} {r : FileRecord}

/-- A record that is resolving gets a report in which each use that is left to a declaration has
one, if the table has its symbol. The declaration is in time exactly if the first one in the file,
if there is one, does not start after the use. -/
theorem declaresInTime_iff (hstate : r.state = .resolving) :
    ∃ report done, finalize ctx r = .ok (report, done) ∧
      ∀ o ∈ report.uses, o.status = .forwardDeclared →
        ((ctx.table.find? o.symbol).isSome = true →
          ∃ l ∈ report.full, l.declared? = some o.symbol) ∧
        (report.DeclaresInTime o ↔ (ctx.table.find? o.symbol).isSome = true ∧
          ∀ d ∈ firstDeclaration? ctx r o.symbol, d.lines.first ≤ o.line) := by
  refine ⟨_, _, Plan.finalize_of_resolving hstate, fun o ho hs => ?_⟩
  have hdeclared : (ctx.table.find? o.symbol).isSome = true →
      ∃ l ∈ ((Plan.make ctx r).report ctx r).full, l.declared? = some o.symbol := fun hknown =>
    List.mem_filterMap.1
      (Plan.mem_symbolsOf_full (Plan.mem_forwardNeeded.2 ⟨o, ho, rfl, hs⟩) hknown)
  refine ⟨hdeclared, ?_, ?_⟩
  · rintro ⟨l, hl, hk, hl'⟩
    have hlines := Plan.lines_of_declared hl hk
    refine ⟨Plan.isSome_find?_of_mem_symbolsOf_full (List.mem_filterMap.2 ⟨l, hl, hk⟩), ?_⟩
    intro d hd
    rw [Option.mem_def.1 hd] at hlines
    rcases hl' with hadd | ⟨span, hspan, hle⟩
    · rw [(Plan.mem_add_iff_of_mem_full hl).1 hadd] at hlines
      cases hlines
    · obtain rfl : span = d.lines := Option.some.inj (hspan.symm.trans hlines)
      exact hle
  · rintro ⟨hknown, hfirst⟩
    obtain ⟨l, hl, hk⟩ := hdeclared hknown
    have hlines := Plan.lines_of_declared hl hk
    refine ⟨l, hl, hk, ?_⟩
    cases hd : firstDeclaration? ctx r o.symbol with
    | none =>
      rw [hd] at hlines
      exact .inl ((Plan.mem_add_iff_of_mem_full hl).2 hlines)
    | some d =>
      rw [hd] at hlines
      exact .inr ⟨d.lines, hlines, hfirst d hd⟩

/-! ## A declaration in a header and one in the file -/

/-- The class `S`, which is declared in line 3 of `a.h` and in the given line of `f.cc`. -/
def declaredTwice (line : Nat) : DecisionContext where
  __ := twiceDeclared
  table := ((SymbolTable.empty []).declare
    { symbol := ⟨"S", .record⟩, location := .plain ⟨.quoted "a.h", 3, 1⟩ }).declare
      (declarationAt line)
  graph := ({} : IncludeGraph).add ⟨.quoted "f.cc", .quoted "a.h", .line 1, none⟩

/-- A source file that includes `a.h`, declares the class and uses it in line 9. -/
def declaringUser : FileRecord where
  __ := repeater
  includes := [⟨.quoted "f.cc", .quoted "a.h", .line 1, none⟩]
  forwardDecls := [1]
  resolved := repeater.resolved.map fun u =>
    { u with attribution := some ⟨some 1, .quoted "f.cc", .nearestDeclaration⟩ }
  pragmas := {}

/-- The include goes, since the file declares the class itself, ahead of the use. -/
theorem early_declaration_taken :
    declaringUser.state = .resolving ∧
      ∃ report done, finalize (declaredTwice 3) declaringUser = .ok (report, done) ∧
        FileReport.includesOf report.remove = [.quoted "a.h"] ∧
        ∃ o ∈ report.uses, o.status = .forwardDeclared ∧ report.DeclaresInTime o := by
  obtain ⟨report, done, h, hiff⟩ := @declaresInTime_iff (declaredTwice 3) declaringUser rfl
  have hreport : FileReport.includesOf report.remove = [.quoted "a.h"] ∧
      ∃ o ∈ report.uses, o.status = .forwardDeclared ∧ o.line = 9 ∧ o.symbol = ⟨"S", .record⟩ := by
    rw [FileReport.report_of_finalize h]
    decide +kernel
  obtain ⟨hremove, o, ho, hs, hline, hsymbol⟩ := hreport
  refine ⟨rfl, report, done, h, hremove, o, ho, hs, (hiff o ho hs).2.2 ?_⟩
  rw [hsymbol, hline]
  decide +kernel

/-- The include goes as well if the file declares the class after the use. -/
theorem late_declaration_taken :
    declaringUser.state = .resolving ∧
      ∃ report done, finalize (declaredTwice 10) declaringUser = .ok (report, done) ∧
        FileReport.includesOf report.remove = [.quoted "a.h"] ∧
        ∃ o ∈ report.uses, o.status = .forwardDeclared ∧ ¬ report.DeclaresInTime o :=
  ⟨rfl, _, _, rfl, by decide +kernel⟩

end IncludeAudit
