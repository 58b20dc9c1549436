import IncludeAudit.Proofs.Decision.Tables
import IncludeAudit.Proofs.Session.Channels
import IncludeAudit.Proofs.Symbol.Growth

/-!
# The table of a session

A table learns its declarations from one channel and the traits of its symbols from another; that it
knows a symbol at all it may learn from three. So it is described up to the order of its symbols by
the facts of each channel:

* `foldl_take`: the operations by which the table grows;
* `factsOf_foldl`: the traits of a symbol, whether it is known or not;
* `contains_foldl`: the symbols that are known;
* `alike_of_foldl`: two tables that learned the same through each channel are alike;
* `Indexed.takeAll`: the forward declarations in a record are found in the table.
-/

namespace IncludeAudit

/-- The operation that a fact is on a table. -/
def Event.operation? : Event → Option SymbolTable.Operation
  | .declaration d => some (.declare d)
  | .traits k facts => some (.addTraits k facts)
  | .use u => some (.intern u.symbol)
  | _ => none

namespace SymbolTable

variable {t : SymbolTable} {k j : SymbolKey} {e : Event} {es es' : List Event}

/-- What is known of a symbol, or will be when it is entered. -/
def factsOf (t : SymbolTable) (k : SymbolKey) : SymbolFacts :=
  (t.facts.find? k).getD (t.initialFacts k)

theorem find?_eq (t : SymbolTable) (k : SymbolKey) :
    t.find? k = if t.facts.contains k then
      some ⟨k, (t.factsOf k).isSystem, (t.factsOf k).traits⟩ else none := by
  rw [find?, factsOf, OrderedMap.contains]
  cases t.facts.find? k <;> rfl

/-! ## One fact -/

theorem factsOf_updateTraits (t : SymbolTable) (k j : SymbolKey)
    (change : SymbolTraits → SymbolTraits) :
    (t.updateTraits k change).factsOf j =
      if j = k then { t.factsOf j with traits := change (t.factsOf j).traits }
      else t.factsOf j := by
  have hinitial : (t.updateTraits k change).initialFacts j = t.initialFacts j := rfl
  rw [factsOf, hinitial, updateTraits, OrderedMap.find?_upsert]
  split
  · rename_i hj
    rw [hj]
    rfl
  · rfl

theorem factsOf_intern (t : SymbolTable) (k j : SymbolKey) :
    (t.intern k).factsOf j = t.factsOf j := by
  rw [intern, factsOf_updateTraits]
  split <;> rfl

theorem factsOf_take (t : SymbolTable) (e : Event) (k : SymbolKey) :
    (t.take e).factsOf k =
      { t.factsOf k with traits := (e.traitsOf? k).toList.foldl .merge (t.factsOf k).traits } := by
  cases e with
  | enter f => rfl
  | directive d => rfl
  | pragma p => rfl
  | declaration d => exact factsOf_intern t d.symbol k
  | use u => exact factsOf_intern t u.symbol k
  | traits j facts =>
    rw [take, addTraits, factsOf_updateTraits, Event.traitsOf?]
    by_cases h : j = k
    · rw [if_pos h.symm, if_pos h]
      rfl
    · rw [if_neg (Ne.symm h), if_neg h]
      rfl

/-! ## All facts -/

theorem factsOf_foldl (es : List Event) (t : SymbolTable) (k : SymbolKey) :
    (es.foldl take t).factsOf k =
      { t.factsOf k with
        traits := (es.filterMap (·.traitsOf? k)).foldl .merge (t.factsOf k).traits } := by
  induction es generalizing t with
  | nil => rfl
  | cons e es ih =>
    rw [List.foldl_cons, ih, factsOf_take, List.filterMap_cons]
    cases e.traitsOf? k <;> rfl

theorem foldl_take (es : List Event) (t : SymbolTable) :
    es.foldl take t = (es.filterMap (·.operation?)).foldl apply t := by
  induction es generalizing t with
  | nil => rfl
  | cons e es ih =>
    rw [List.foldl_cons, ih, List.filterMap_cons]
    cases e <;> rfl

theorem contains_foldl : (es.foldl take t).facts.contains k = true ↔
    t.facts.contains k = true ∨ ∃ e ∈ es, e.symbol? = some k := by
  have hsymbol (e : Event) : e.symbol? = e.operation?.map (·.symbol) := by
    cases e <;> rfl
  simp only [foldl_take, contains_foldl_apply, List.mem_filterMap, hsymbol, Option.map_eq_some_iff]
  refine or_congr_right ⟨?_, ?_⟩
  · rintro ⟨op, ⟨e, he, hop⟩, hk⟩
    exact ⟨e, he, op, hop, hk⟩
  · rintro ⟨e, he, op, hop, hk⟩
    exact ⟨op, ⟨e, he, hop⟩, hk⟩

theorem declarations_foldl (es : List Event) (t : SymbolTable) :
    (es.foldl take t).declarations = t.declarations ++ es.filterMap (·.declaration?) := by
  have hdeclaration (e : Event) : e.operation?.bind (·.declaration?) = e.declaration? := by
    cases e <;> rfl
  simp only [foldl_take, declarations_foldl_apply, List.filterMap_filterMap, hdeclaration]

/-- Tables are alike that learned the same declarations, the same traits and of the same symbols. -/
theorem alike_of_foldl (t : SymbolTable)
    (hdeclarations : es.filterMap (·.declaration?) = es'.filterMap (·.declaration?))
    (htraits : ∀ k, es.filterMap (·.traitsOf? k) = es'.filterMap (·.traitsOf? k))
    (hsymbols : ∀ k, (∃ e ∈ es, e.symbol? = some k) ↔ ∃ e ∈ es', e.symbol? = some k) :
    (es.foldl take t).Alike (es'.foldl take t) where
  declarations := by rw [declarations_foldl, declarations_foldl, hdeclarations]
  find? k := by
    have hcontains : (es.foldl take t).facts.contains k = (es'.foldl take t).facts.contains k := by
      rw [Bool.eq_iff_iff, contains_foldl, contains_foldl, hsymbols]
    rw [find?_eq, find?_eq, hcontains, factsOf_foldl, factsOf_foldl, htraits]

end SymbolTable

/-! ## Forward declarations -/

namespace Session

variable {s s' : Session} {e : Event} {es : List Event}

/-- The forward declarations of each file are found among the declarations of the table. -/
def Indexed (s : Session) : Prop :=
  ∀ f, (s.recordOf f).forwardDecls =
    (s.table.declarationsWhere fun d => d.isForward && d.file == f).map (·.1)

theorem indexed_start (env : Environment) (main : FileName) : (start env main).Indexed := by
  intro f
  rw [recordOf_start]
  rfl

theorem Indexed.take (h : s.Indexed) (ht : s.take e = .ok s') : s'.Indexed := by
  intro f
  have hlearns := take_spec ht
  rw [(hlearns.records f).forwardDecls, h f]
  cases e with
  | declaration d =>
    rw [SymbolTable.declarationsWhere_append hlearns.declarations, List.map_append,
      Event.declaresIn]
    split <;> rfl
  | _ =>
    have hsame : s'.table.declarations = s.table.declarations :=
      hlearns.declarations.trans (List.append_nil _)
    simp [SymbolTable.declarationsWhere, hsame, Event.declaresIn]

theorem Indexed.takeAll (h : s.Indexed) (ht : s.takeAll es = .ok s') : s'.Indexed := by
  induction es generalizing s with
  | nil =>
    cases ht
    exact h
  | cons e es ih =>
    rw [Session.takeAll] at ht
    split at ht
    · rename_i s₁ hs₁
      exact ih (h.take hs₁) ht
    · cases ht

end Session

end IncludeAudit
