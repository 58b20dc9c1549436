import IncludeAudit.Proofs.Ordered.Map
import IncludeAudit.Symbol.Table

/-!
# Growing symbol tables

Tables grow by three operations, each of which enters its symbol if it is new. What is entered
stays: declarations under their indices, symbols in their places, and what is true of a symbol.

* `Extends`: tables to which declarations were added;
* `lookup_eq_some`, `pairwise_candidates`: places of symbols, and the order of candidates;
* `declarations_foldl_apply`, `contains_foldl_apply`: what a table has after a sequence of
  operations.
-/

namespace IncludeAudit

/-! ## Traits -/

namespace SymbolTraits

variable {a b c : SymbolTraits}

/-- What is true by the first traits is true by the second. -/
structure LastsIn (old new : SymbolTraits) : Prop where
  isFinal : old.isFinal = true → new.isFinal = true
  hasDefaultTemplateArgs : old.hasDefaultTemplateArgs = true → new.hasDefaultTemplateArgs = true
  inInlineNamespace : old.inInlineNamespace = true → new.inInlineNamespace = true
  isBuiltin : old.isBuiltin = true → new.isBuiltin = true

theorem LastsIn.refl (a : SymbolTraits) : a.LastsIn a :=
  ⟨id, id, id, id⟩

theorem LastsIn.trans (h : a.LastsIn b) (h' : b.LastsIn c) : a.LastsIn c where
  isFinal := h'.isFinal ∘ h.isFinal
  hasDefaultTemplateArgs := h'.hasDefaultTemplateArgs ∘ h.hasDefaultTemplateArgs
  inInlineNamespace := h'.inInlineNamespace ∘ h.inInlineNamespace
  isBuiltin := h'.isBuiltin ∘ h.isBuiltin

theorem lastsIn_merge (old new : SymbolTraits) : old.LastsIn (old.merge new) := by
  constructor <;> intro h <;> simp [merge, h]

end SymbolTraits

namespace SymbolTable

variable {t t' : SymbolTable} {k : SymbolKey} {i : Nat} {d : Declaration}

/-! ## More declarations -/

/-- True of a table to which declarations were added. -/
def Extends (t' t : SymbolTable) : Prop :=
  t.declarations <+: t'.declarations

theorem extends_updateTraits (t : SymbolTable) (k : SymbolKey)
    (change : SymbolTraits → SymbolTraits) : (t.updateTraits k change).Extends t :=
  List.prefix_rfl

theorem extends_declare (t : SymbolTable) (d : Declaration) : (t.declare d).Extends t :=
  List.prefix_append t.declarations [d]

theorem Extends.declaration? (h : t'.Extends t) (hd : t.declaration? i = some d) :
    t'.declaration? i = some d := by
  obtain ⟨ds, hds⟩ := h
  have hi : i < t.declarations.length := (List.getElem?_eq_some_iff.1 hd).1
  rw [SymbolTable.declaration?, ← hds, List.getElem?_append_left hi]
  exact hd

/-- New declarations of a symbol follow the old ones. -/
theorem Extends.candidates (h : t'.Extends t) (k : SymbolKey) :
    t.candidates k <+: t'.candidates k := by
  obtain ⟨ds, hds⟩ := h
  simp only [SymbolTable.candidates, declarationsWhere, ← hds, List.zipIdx_append,
    List.filter_append, List.map_append]
  exact List.prefix_append _ _

theorem declarationsWhere_append (h : t'.declarations = t.declarations ++ [d])
    (p : Declaration → Bool) :
    t'.declarationsWhere p =
      t.declarationsWhere p ++ if p d then [(t.declarationCount, d)] else [] := by
  simp only [declarationsWhere, h, List.zipIdx_append, List.filter_append, List.map_append,
    declarationCount]
  congr 1
  cases hp : p d <;> simp [hp]

/-! ## Places and candidates -/

theorem lookup_eq_some :
    t.lookup k = some i ↔ ∃ facts, t.facts.entries[i]? = some (k, facts) :=
  OrderedMap.indexOf?_eq_some

theorem isSome_lookup (t : SymbolTable) (k : SymbolKey) :
    (t.lookup k).isSome = t.facts.contains k :=
  t.facts.isSome_indexOf? k

theorem exists_lookup (h : t.declaration? i = some d) : ∃ place, t.lookup d.symbol = some place := by
  rw [← Option.isSome_iff_exists, isSome_lookup]
  exact t.known d (List.mem_of_getElem? h)

theorem mem_indices_candidates :
    i ∈ (t.candidates k).map (·.1) ↔ ∃ d, t.declaration? i = some d ∧ d.symbol = k := by
  simp [candidates, mem_declarationsWhere]

/-- An unknown symbol has no declarations. -/
theorem candidates_of_lookup_eq_none (h : t.lookup k = none) : t.candidates k = [] := by
  refine List.eq_nil_iff_forall_not_mem.2 fun c hc => ?_
  obtain ⟨hd, hkey⟩ := mem_declarationsWhere.1 hc
  obtain ⟨place, hplace⟩ := exists_lookup hd
  rw [eq_of_beq hkey, h] at hplace
  cases hplace

theorem pairwise_candidates (t : SymbolTable) (k : SymbolKey) :
    ((t.candidates k).map (·.1)).Pairwise (· < ·) := by
  have hindices : (t.candidates k).map (·.1) =
      (t.declarations.zipIdx.filter fun e => e.1.symbol == k).map Prod.snd := by
    rw [candidates, declarationsWhere, List.map_map]
    rfl
  have hall : (t.declarations.zipIdx.map Prod.snd).Pairwise (· < ·) := by
    rw [List.zipIdx_map_snd]
    exact List.pairwise_lt_range'
  rw [hindices]
  exact hall.sublist (List.filter_sublist.map _)

/-! ## Operations -/

/-- An operation by which a table grows. -/
inductive Operation where
  | intern (k : SymbolKey)
  | declare (d : Declaration)
  | addTraits (k : SymbolKey) (traits : SymbolTraits)
  deriving DecidableEq, Repr

namespace Operation

/-- The symbol that the operation enters if it is new. -/
def symbol : Operation → SymbolKey
  | intern k => k
  | declare d => d.symbol
  | addTraits k _ => k

/-- The declaration that the operation adds. -/
def declaration? : Operation → Option Declaration
  | declare d => some d
  | _ => none

end Operation

/-- The table after an operation. -/
def apply (t : SymbolTable) : Operation → SymbolTable
  | .intern k => t.intern k
  | .declare d => t.declare d
  | .addTraits k traits => t.addTraits k traits

variable {op : Operation} {ops : List Operation}

theorem declarations_apply (t : SymbolTable) (op : Operation) :
    (t.apply op).declarations = t.declarations ++ op.declaration?.toList := by
  cases op with
  | declare d => rfl
  | _ => exact (List.append_nil _).symm

theorem contains_apply : (t.apply op).facts.contains k = true ↔
    t.facts.contains k = true ∨ op.symbol = k := by
  rw [or_comm, eq_comm (a := op.symbol)]
  cases op with
  | intern j => exact OrderedMap.contains_upsert
  | declare d => exact OrderedMap.contains_upsert
  | addTraits j traits => exact OrderedMap.contains_upsert

theorem declarations_foldl_apply (t : SymbolTable) (ops : List Operation) :
    (ops.foldl apply t).declarations = t.declarations ++ ops.filterMap (·.declaration?) := by
  induction ops generalizing t with
  | nil => exact (List.append_nil _).symm
  | cons op ops ih =>
    rw [List.foldl_cons, ih, declarations_apply, List.append_assoc, List.filterMap_cons]
    cases op.declaration? <;> rfl

theorem contains_foldl_apply : (ops.foldl apply t).facts.contains k = true ↔
    t.facts.contains k = true ∨ ∃ op ∈ ops, op.symbol = k := by
  induction ops generalizing t with
  | nil => simp
  | cons op ops ih => rw [List.foldl_cons, ih, contains_apply, or_assoc, List.exists_mem_cons_iff]

end SymbolTable

end IncludeAudit
