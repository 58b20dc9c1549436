import IncludeAudit.Proofs.Symbol.Growth

/-!
# Symbols and declarations in stores

A symbol table kept in three stores: the symbols in the order of discovery, each with the indices of
its declarations, the places of the symbols by key, and the declarations. Each operation finds the
place of its symbol, which it enters if it is new, and changes what stands there. No operation looks
whether the stores agree or a place is in range; it is proved.

A `SymbolTable` writes down neither places nor indices. `stored` reads them off, and what it reads is
what the stores hold.

* `intern_stored`, `declare_stored`, `addTraits_stored`: an operation does to the stores what it does
  to the table;
* `consistent_stored`: the stores of a table agree;
* `growsTo_apply`: what an operation keeps;
* `run_consistent`: the stores after any sequence of operations.
-/

namespace IncludeAudit

/-- A symbol as it is stored, with the indices of its declarations. -/
structure StoredSymbol where
  key : SymbolKey
  declarations : List DeclId := []
  isSystem : Bool
  traits : SymbolTraits := {}
  deriving DecidableEq, Repr

/-- The symbols, their places by key, and the declarations. -/
@[ext]
structure SymbolStore where
  systemNamespaces : List String
  symbols : List StoredSymbol
  places : OrderedMap SymbolKey Nat
  declarations : List Declaration

namespace SymbolStore

/-- The store without symbols. -/
def empty (systemNamespaces : List String) : SymbolStore :=
  ⟨systemNamespaces, [], {}, []⟩

/-- The place of a symbol. -/
def lookup (s : SymbolStore) (k : SymbolKey) : Option Nat :=
  s.places.find? k

/-- Enters a symbol at the end, unless it has a place, and answers its place. -/
def intern (s : SymbolStore) (k : SymbolKey) : SymbolStore × Nat :=
  match s.lookup k with
  | some place => (s, place)
  | none =>
    ({ s with
        symbols := s.symbols ++ [{ key := k, isSystem := s.systemNamespaces.any k.isIn }]
        places := s.places.set k s.symbols.length },
      s.symbols.length)

/-- Changes the symbol at a place. -/
def change (s : SymbolStore) (place : Nat) (f : StoredSymbol → StoredSymbol) : SymbolStore :=
  { s with symbols := s.symbols.modify place f }

/-- Adds a declaration and lists it with its symbol. Answers the index. -/
def declare (s : SymbolStore) (d : Declaration) : SymbolStore × DeclId :=
  let (s, place) := s.intern d.symbol
  let id := s.declarations.length
  ({ s.change place fun e => { e with declarations := e.declarations ++ [id] } with
      declarations := s.declarations ++ [d] },
    id)

/-- Merges facts into a symbol. -/
def addTraits (s : SymbolStore) (k : SymbolKey) (traits : SymbolTraits) : SymbolStore :=
  let (s, place) := s.intern k
  s.change place fun e => { e with traits := e.traits.merge traits }

/-- The store after an operation. -/
def apply (s : SymbolStore) : SymbolTable.Operation → SymbolStore
  | .intern k => (s.intern k).1
  | .declare d => (s.declare d).1
  | .addTraits k traits => s.addTraits k traits

/-- The store after operations on an empty one. -/
def run (systemNamespaces : List String) (ops : List SymbolTable.Operation) : SymbolStore :=
  ops.foldl apply (empty systemNamespaces)

end SymbolStore

/-! ## The stores of a table -/

namespace SymbolTable

variable {t : SymbolTable} {k : SymbolKey} {place : Nat} {e : StoredSymbol}

/-- The entry of a symbol with the indices of its declarations. -/
def storedSymbol (t : SymbolTable) (entry : SymbolKey × SymbolFacts) : StoredSymbol :=
  ⟨entry.1, (t.candidates entry.1).map (·.1), entry.2.isSystem, entry.2.traits⟩

/-- The table with its places and indices written out. -/
def stored (t : SymbolTable) : SymbolStore where
  systemNamespaces := t.systemNamespaces
  symbols := t.facts.entries.map t.storedSymbol
  places := ⟨t.facts.keys.zipIdx, by rw [List.zipIdx_map_fst]; exact t.facts.nodup⟩
  declarations := t.declarations

theorem lookup_stored (t : SymbolTable) (k : SymbolKey) : t.stored.lookup k = t.lookup k := by
  ext place
  rw [SymbolStore.lookup, OrderedMap.find?_eq_some, lookup_eq_some]
  simp [stored, OrderedMap.keys, List.mk_mem_zipIdx_iff_getElem?]

theorem getElem?_symbols_stored : t.stored.symbols[place]? = some e ↔
    ∃ facts, t.facts.entries[place]? = some (e.key, facts) ∧ t.storedSymbol (e.key, facts) = e := by
  rw [stored, List.getElem?_map, Option.map_eq_some_iff]
  constructor
  · rintro ⟨⟨key, facts⟩, hentry, rfl⟩
    exact ⟨facts, hentry, rfl⟩
  · rintro ⟨facts, hentry, he⟩
    exact ⟨_, hentry, he⟩

/-! ## Operations on stores -/

theorem intern_of_lookup (h : t.lookup k = some place) : t.intern k = t := by
  obtain ⟨facts, hentry⟩ := lookup_eq_some.1 h
  have hfacts : t.facts.find? k = some facts :=
    OrderedMap.find?_eq_some.2 (List.mem_of_getElem? hentry)
  have hsame : (t.intern k).facts = t.facts := by
    dsimp only [intern, updateTraits]
    exact OrderedMap.upsert_eq_self hfacts rfl
  cases t
  simpa only [intern, updateTraits, SymbolTable.mk.injEq, true_and, and_true] using hsame

/-- A symbol may be entered before its traits change. -/
theorem updateTraits_intern (t : SymbolTable) (k : SymbolKey)
    (change : SymbolTraits → SymbolTraits) :
    (t.intern k).updateTraits k change = t.updateTraits k change := by
  simp only [intern, updateTraits, OrderedMap.upsert_upsert, Option.getD_some, id]

theorem notMem_keys (h : t.lookup k = none) : k ∉ t.facts.keys := by
  rw [← OrderedMap.contains_eq_true, ← isSome_lookup, h]
  exact Bool.false_ne_true

theorem entries_intern (h : t.lookup k = none) :
    (t.intern k).facts.entries = t.facts.entries ++ [(k, t.initialFacts k)] := by
  rw [intern, updateTraits, OrderedMap.entries_upsert_of_notMem _ (notMem_keys h)]
  rfl

theorem symbols_stored_intern (h : t.lookup k = none) :
    (t.intern k).stored.symbols =
      t.stored.symbols ++ [{ key := k, isSystem := t.systemNamespaces.any k.isIn }] := by
  have hsame : (t.intern k).storedSymbol = t.storedSymbol := rfl
  have hnew : t.storedSymbol (k, t.initialFacts k) =
      { key := k, isSystem := t.systemNamespaces.any k.isIn } := by
    rw [storedSymbol, candidates_of_lookup_eq_none h]
    rfl
  rw [stored, entries_intern h, List.map_append, hsame, List.map_singleton, hnew, stored]

theorem places_stored_intern (h : t.lookup k = none) :
    (t.intern k).stored.places = t.stored.places.set k t.stored.symbols.length := by
  have hkeys : t.stored.places.keys = t.facts.keys := List.zipIdx_map_fst ..
  refine OrderedMap.eq_of_entries ?_
  rw [OrderedMap.set, OrderedMap.entries_upsert_of_notMem _ (hkeys ▸ notMem_keys h)]
  simp only [stored, OrderedMap.keys, entries_intern h, List.map_append, List.zipIdx_append,
    List.length_map, List.map_singleton, List.zipIdx_singleton, Nat.zero_add]

/-- A symbol that has a place is found there, and a new one comes last. -/
theorem intern_stored (t : SymbolTable) (k : SymbolKey) :
    ∃ place, (t.intern k).lookup k = some place ∧
      t.stored.intern k = ((t.intern k).stored, place) := by
  cases hplace : t.lookup k with
  | some place =>
    refine ⟨place, ?_⟩
    rw [intern_of_lookup hplace, SymbolStore.intern, lookup_stored, hplace]
    exact ⟨rfl, rfl⟩
  | none =>
    refine ⟨t.stored.symbols.length, lookup_eq_some.2 ⟨t.initialFacts k, ?_⟩, ?_⟩
    · rw [entries_intern hplace, stored, List.length_map, List.getElem?_concat_length]
    · rw [SymbolStore.intern, lookup_stored, hplace]
      refine Prod.ext (SymbolStore.ext rfl ?_ ?_ rfl) rfl
      · exact (symbols_stored_intern hplace).symm
      · exact (places_stored_intern hplace).symm

/-- The traits of a symbol change at its place. -/
theorem updateTraits_stored (h : t.lookup k = some place) (f : SymbolTraits → SymbolTraits) :
    (t.updateTraits k f).stored = t.stored.change place fun e => { e with traits := f e.traits } := by
  obtain ⟨facts, hentry⟩ := lookup_eq_some.1 h
  have hk : k ∈ t.facts.keys := List.mem_map_of_mem (List.mem_of_getElem? hentry)
  have hentries : (t.updateTraits k f).facts.entries =
      OrderedMap.adjustEntries k (fun old => { old with traits := f old.traits }) t.facts.entries :=
    OrderedMap.entries_upsert_of_mem _ hk
  refine SymbolStore.ext rfl ?_ (OrderedMap.eq_of_entries ?_) rfl
  · dsimp only [SymbolStore.change, stored]
    rw [hentries, OrderedMap.adjustEntries, List.map_map]
    refine (OrderedMap.modify_map h fun e _ => ?_).symm
    rw [Function.comp_apply]
    split <;> rfl
  · dsimp only [SymbolStore.change, stored]
    rw [OrderedMap.keys, hentries, OrderedMap.keys_adjustEntries, OrderedMap.keys]

theorem addTraits_stored (t : SymbolTable) (k : SymbolKey) (traits : SymbolTraits) :
    t.stored.addTraits k traits = (t.addTraits k traits).stored := by
  obtain ⟨place, hplace, hintern⟩ := t.intern_stored k
  rw [SymbolStore.addTraits, hintern, addTraits, ← updateTraits_intern, updateTraits_stored hplace]

/-- A declaration gets the next index, in the stores and in the table. -/
theorem declare_stored (t : SymbolTable) (d : Declaration) :
    t.stored.declare d = ((t.declare d).stored, t.declarationCount) := by
  obtain ⟨place, hplace, hintern⟩ := t.intern_stored d.symbol
  rw [SymbolStore.declare, hintern]
  refine Prod.ext (SymbolStore.ext rfl ?_ rfl rfl) rfl
  refine OrderedMap.modify_map hplace fun e _ => ?_
  have hcandidates : (t.declare d).candidates e.1 =
      t.candidates e.1 ++ if d.symbol == e.1 then [(t.declarationCount, d)] else [] :=
    declarationsWhere_append rfl _
  rw [storedSymbol, hcandidates]
  split
  · rename_i hkey
    rw [if_pos (eq_of_beq hkey).symm, List.map_append]
    rfl
  · rename_i hkey
    rw [if_neg fun h => hkey (beq_iff_eq.2 h.symm), List.append_nil]
    rfl

/-- An operation does to the stores what it does to the table. -/
theorem apply_stored (t : SymbolTable) (op : Operation) :
    t.stored.apply op = (t.apply op).stored := by
  cases op with
  | intern k =>
    obtain ⟨place, -, hintern⟩ := t.intern_stored k
    exact congrArg Prod.fst hintern
  | declare d => exact congrArg Prod.fst (t.declare_stored d)
  | addTraits k traits => exact t.addTraits_stored k traits

theorem foldl_apply_stored (t : SymbolTable) (ops : List Operation) :
    ops.foldl SymbolStore.apply t.stored = (ops.foldl apply t).stored := by
  induction ops generalizing t with
  | nil => rfl
  | cons op ops ih => rw [List.foldl_cons, apply_stored, ih, List.foldl_cons]

end SymbolTable

/-! ## Agreement -/

namespace SymbolStore

/-- The stores agree: the place of a key is the one at which a symbol has it, each declaration is
listed with the symbol of its key and with no other, and lists are in the order of discovery. -/
structure Consistent (s : SymbolStore) : Prop where
  lookup : ∀ k place, s.lookup k = some place ↔ ∃ e, s.symbols[place]? = some e ∧ e.key = k
  owner : ∀ i d, s.declarations[i]? = some d → ∃ place, s.lookup d.symbol = some place ∧
    ∀ j e, s.symbols[j]? = some e → (i ∈ e.declarations ↔ j = place)
  listed : ∀ e ∈ s.symbols, ∀ i ∈ e.declarations,
    ∃ d, s.declarations[i]? = some d ∧ d.symbol = e.key
  increasing : ∀ e ∈ s.symbols, e.declarations.Pairwise (· < ·)

end SymbolStore

namespace SymbolTable

variable {t : SymbolTable} {e : StoredSymbol}

theorem exists_entry (he : e ∈ t.stored.symbols) :
    ∃ facts, t.storedSymbol (e.key, facts) = e := by
  obtain ⟨place, hplace⟩ := List.getElem?_of_mem he
  obtain ⟨facts, -, hstored⟩ := getElem?_symbols_stored.1 hplace
  exact ⟨facts, hstored⟩

theorem consistent_stored (t : SymbolTable) : t.stored.Consistent where
  lookup k place := by
    rw [lookup_stored, lookup_eq_some]
    constructor
    · rintro ⟨facts, hentry⟩
      exact ⟨t.storedSymbol (k, facts), getElem?_symbols_stored.2 ⟨facts, hentry, rfl⟩, rfl⟩
    · rintro ⟨e, he, rfl⟩
      obtain ⟨facts, hentry, -⟩ := getElem?_symbols_stored.1 he
      exact ⟨facts, hentry⟩
  owner i d hd := by
    obtain ⟨place, hplace⟩ := exists_lookup hd
    refine ⟨place, (t.lookup_stored d.symbol).trans hplace, fun j e he => ?_⟩
    obtain ⟨facts, hentry, hstored⟩ := getElem?_symbols_stored.1 he
    have hj : t.lookup e.key = some j := lookup_eq_some.2 ⟨facts, hentry⟩
    -- listed with the symbol of its key, which has one place only
    have hlisted : i ∈ e.declarations ↔ d.symbol = e.key := by
      rw [← hstored]
      exact mem_indices_candidates.trans
        ⟨fun ⟨d', hd', hkey⟩ => Option.some.inj (hd.symm.trans hd') ▸ hkey, fun hkey => ⟨d, hd, hkey⟩⟩
    rw [hlisted]
    constructor
    · intro hkey
      rw [hkey, hj] at hplace
      exact Option.some.inj hplace
    · rintro rfl
      obtain ⟨facts', hentry'⟩ := lookup_eq_some.1 hplace
      rw [hentry, Option.some.injEq, Prod.mk.injEq] at hentry'
      exact hentry'.1.symm
  listed e he i hi := by
    obtain ⟨facts, hstored⟩ := exists_entry he
    rw [← hstored] at hi
    exact mem_indices_candidates.1 hi
  increasing e he := by
    obtain ⟨facts, hstored⟩ := exists_entry he
    rw [← hstored]
    exact t.pairwise_candidates e.key

end SymbolTable

/-! ## Growth -/

/-- The later symbol is the earlier one with more declarations at the end and more that is true. -/
structure StoredSymbol.GrowsTo (e e' : StoredSymbol) : Prop where
  key : e'.key = e.key
  isSystem : e'.isSystem = e.isSystem
  declarations : e.declarations <+: e'.declarations
  traits : e.traits.LastsIn e'.traits

theorem StoredSymbol.GrowsTo.refl (e : StoredSymbol) : e.GrowsTo e :=
  ⟨rfl, rfl, List.prefix_rfl, .refl _⟩

theorem StoredSymbol.GrowsTo.trans {e e' e'' : StoredSymbol} (h : e.GrowsTo e')
    (h' : e'.GrowsTo e'') : e.GrowsTo e'' where
  key := h'.key.trans h.key
  isSystem := h'.isSystem.trans h.isSystem
  declarations := h.declarations.trans h'.declarations
  traits := h.traits.trans h'.traits

/-- The later stores have each symbol of the earlier ones in its place and each declaration under its
index. -/
structure SymbolStore.GrowsTo (s s' : SymbolStore) : Prop where
  symbols : ∀ (place : Nat) (e : StoredSymbol), s.symbols[place]? = some e →
    ∃ e' : StoredSymbol, s'.symbols[place]? = some e' ∧ e.GrowsTo e'
  lookup : ∀ k place, s.lookup k = some place → s'.lookup k = some place
  declarations : s.declarations <+: s'.declarations

theorem SymbolStore.GrowsTo.refl (s : SymbolStore) : s.GrowsTo s where
  symbols _ e he := ⟨e, he, .refl e⟩
  lookup _ _ := id
  declarations := List.prefix_rfl

theorem SymbolStore.GrowsTo.trans {s s' s'' : SymbolStore} (h : s.GrowsTo s')
    (h' : s'.GrowsTo s'') : s.GrowsTo s'' where
  symbols place e he := by
    obtain ⟨e', he', hgrows⟩ := h.symbols place e he
    obtain ⟨e'', he'', hgrows'⟩ := h'.symbols place e' he'
    exact ⟨e'', he'', hgrows.trans hgrows'⟩
  lookup k place hplace := h'.lookup k place (h.lookup k place hplace)
  declarations := h.declarations.trans h'.declarations

namespace SymbolTable

variable {t : SymbolTable} {k j : SymbolKey} {place : Nat} {facts : SymbolFacts}

theorem entry_updateTraits {change : SymbolTraits → SymbolTraits}
    (hchange : ∀ traits : SymbolTraits, traits.LastsIn (change traits))
    (hentry : t.facts.entries[place]? = some (j, facts)) :
    ∃ facts', (t.updateTraits k change).facts.entries[place]? = some (j, facts') ∧
      facts'.isSystem = facts.isSystem ∧ facts.traits.LastsIn facts'.traits := by
  refine ⟨_, OrderedMap.getElem?_upsert _ hentry, ?_⟩
  split
  · exact ⟨rfl, hchange _⟩
  · exact ⟨rfl, .refl _⟩

theorem entry_apply (op : Operation) (hentry : t.facts.entries[place]? = some (j, facts)) :
    ∃ facts', (t.apply op).facts.entries[place]? = some (j, facts') ∧
      facts'.isSystem = facts.isSystem ∧ facts.traits.LastsIn facts'.traits := by
  cases op with
  | intern k => exact entry_updateTraits .refl hentry
  | declare d => exact entry_updateTraits (t := t) (k := d.symbol) .refl hentry
  | addTraits k traits => exact entry_updateTraits (fun old => old.lastsIn_merge traits) hentry

theorem extends_apply (t : SymbolTable) (op : Operation) : (t.apply op).Extends t :=
  ⟨_, (t.declarations_apply op).symm⟩

theorem growsTo_apply (t : SymbolTable) (op : Operation) :
    t.stored.GrowsTo (t.apply op).stored where
  symbols place e he := by
    obtain ⟨facts, hentry, hstored⟩ := getElem?_symbols_stored.1 he
    obtain ⟨facts', hentry', hsystem, htraits⟩ := entry_apply op hentry
    refine ⟨(t.apply op).storedSymbol (e.key, facts'),
      getElem?_symbols_stored.2 ⟨facts', hentry', rfl⟩, ?_⟩
    rw [← hstored]
    exact ⟨rfl, hsystem, ((t.extends_apply op).candidates e.key).map _, htraits⟩
  lookup k place hplace := by
    rw [lookup_stored, lookup_eq_some] at hplace ⊢
    obtain ⟨facts, hentry⟩ := hplace
    obtain ⟨facts', hentry', -⟩ := entry_apply op hentry
    exact ⟨facts', hentry'⟩
  declarations := t.extends_apply op

theorem growsTo_foldl_apply (t : SymbolTable) (ops : List Operation) :
    t.stored.GrowsTo (ops.foldl apply t).stored := by
  induction ops generalizing t with
  | nil => exact .refl t.stored
  | cons op ops ih => exact (t.growsTo_apply op).trans (ih (t.apply op))

end SymbolTable

/-! ## Runs -/

namespace SymbolStore

/-- The stores after operations are those of the table after them. -/
theorem run_eq_stored (systemNamespaces : List String) (ops : List SymbolTable.Operation) :
    run systemNamespaces ops =
      (ops.foldl SymbolTable.apply (SymbolTable.empty systemNamespaces)).stored :=
  (SymbolTable.empty systemNamespaces).foldl_apply_stored ops

/-- After any operations the stores agree, have grown from what they were at each moment before, and
hold the declarations and the symbols of the operations. What they hold is what is seen in the table
after the same operations. -/
theorem run_consistent (systemNamespaces : List String) (ops : List SymbolTable.Operation) :
    (run systemNamespaces ops).Consistent ∧
      (∀ before after, before ++ after = ops →
        (run systemNamespaces before).GrowsTo (run systemNamespaces ops)) ∧
      (run systemNamespaces ops).declarations = ops.filterMap (·.declaration?) ∧
      (∀ k, ((run systemNamespaces ops).lookup k).isSome = true ↔ ∃ op ∈ ops, op.symbol = k) ∧
      run systemNamespaces ops =
        (ops.foldl SymbolTable.apply (SymbolTable.empty systemNamespaces)).stored := by
  refine ⟨?_, ?_, ?_, fun k => ?_, run_eq_stored systemNamespaces ops⟩
  · rw [run_eq_stored]
    exact SymbolTable.consistent_stored _
  · rintro before after rfl
    rw [run_eq_stored, run_eq_stored, List.foldl_append]
    exact SymbolTable.growsTo_foldl_apply _ after
  · rw [run_eq_stored]
    exact SymbolTable.declarations_foldl_apply _ ops
  · rw [run_eq_stored, SymbolTable.lookup_stored, SymbolTable.isSome_lookup,
      SymbolTable.contains_foldl_apply]
    exact or_iff_right Bool.false_ne_true

end SymbolStore

end IncludeAudit
