import IncludeAudit.Ordered.Map
import IncludeAudit.Symbol.Declaration
import IncludeAudit.Symbol.Traits

/-!
# The symbol table

The symbols of a run and their declarations, both in the order of discovery. Tables only grow:
`intern`, `declare` and `addTraits` append, so an index stays valid and a lower one was seen
earlier. Every declaration has its symbol in the table. The candidates of a symbol are its
declarations with their indices; they are not stored beside the declarations, so the two cannot
disagree.
-/

namespace IncludeAudit

/-- The place of a declaration in the order of discovery. -/
abbrev DeclId := Nat

/-- What the table keeps of a symbol beside its key. -/
structure SymbolFacts where
  isSystem : Bool
  traits : SymbolTraits
  deriving DecidableEq, Repr

/-- Symbols by key and declarations, in the order of discovery. -/
structure SymbolTable where
  systemNamespaces : List String
  facts : OrderedMap SymbolKey SymbolFacts
  declarations : List Declaration
  known : ∀ d ∈ declarations, facts.contains d.symbol = true

namespace SymbolTable

/-- The table without symbols, in which those of the given namespaces count as system symbols. -/
def empty (systemNamespaces : List String) : SymbolTable :=
  ⟨systemNamespaces, {}, [], fun _ hd => absurd hd List.not_mem_nil⟩

/-- The facts of a symbol that is met for the first time. -/
def initialFacts (t : SymbolTable) (k : SymbolKey) : SymbolFacts :=
  ⟨t.systemNamespaces.any k.isIn, {}⟩

/-- Changes the traits of a symbol, which is entered if it is new. -/
def updateTraits (t : SymbolTable) (k : SymbolKey) (f : SymbolTraits → SymbolTraits) :
    SymbolTable :=
  { t with
    facts := t.facts.upsert k fun old =>
      let old := old.getD (t.initialFacts k)
      { old with traits := f old.traits }
    known := fun d hd => OrderedMap.contains_upsert.2 (.inr (t.known d hd)) }

/-- Enters a symbol if it is new. -/
def intern (t : SymbolTable) (k : SymbolKey) : SymbolTable :=
  t.updateTraits k id

/-- Adds a declaration, entering its symbol if it is new. -/
def declare (t : SymbolTable) (d : Declaration) : SymbolTable :=
  { t.intern d.symbol with
    declarations := t.declarations ++ [d]
    known := fun e he => OrderedMap.contains_upsert.2 <| by
      rcases List.mem_append.1 he with he | he
      · exact .inr (t.known e he)
      · exact .inl (by rw [List.mem_singleton.1 he]) }

/-- Merges facts into a symbol, which is entered if it is new. -/
def addTraits (t : SymbolTable) (k : SymbolKey) (traits : SymbolTraits) : SymbolTable :=
  t.updateTraits k fun old => old.merge traits

/-- The place of a symbol in the order of discovery. -/
def lookup (t : SymbolTable) (k : SymbolKey) : Option Nat :=
  t.facts.indexOf? k

/-- The symbol of a key. -/
def find? (t : SymbolTable) (k : SymbolKey) : Option Symbol :=
  (t.facts.find? k).map fun f => ⟨k, f.isSystem, f.traits⟩

/-- The declaration with an index. -/
def declaration? (t : SymbolTable) (i : DeclId) : Option Declaration :=
  t.declarations[i]?

/-- The number of symbols. -/
def symbolCount (t : SymbolTable) : Nat :=
  t.facts.size

/-- The number of declarations. -/
def declarationCount (t : SymbolTable) : Nat :=
  t.declarations.length

/-- The declarations with a property, with their indices, in the order of discovery. -/
def declarationsWhere (t : SymbolTable) (p : Declaration → Bool) : List (DeclId × Declaration) :=
  (t.declarations.zipIdx.filter fun e => p e.1).map Prod.swap

/-- The declarations of a symbol. -/
def candidates (t : SymbolTable) (k : SymbolKey) : List (DeclId × Declaration) :=
  t.declarationsWhere (·.symbol == k)

/-- The declarations in a file. -/
def declarationsIn (t : SymbolTable) (f : FileName) : List (DeclId × Declaration) :=
  t.declarationsWhere (·.file == f)

theorem mem_declarationsWhere {t : SymbolTable} {p : Declaration → Bool} {i : DeclId}
    {d : Declaration} :
    (i, d) ∈ t.declarationsWhere p ↔ t.declaration? i = some d ∧ p d = true := by
  simp only [declarationsWhere, declaration?, List.mem_map, List.mem_filter]
  constructor
  · rintro ⟨⟨e, j⟩, ⟨hmem, hp⟩, heq⟩
    obtain ⟨rfl, rfl⟩ := Prod.mk.inj heq
    exact ⟨by simpa [List.mk_mem_zipIdx_iff_getElem?] using hmem, hp⟩
  · rintro ⟨hd, hp⟩
    exact ⟨(d, i), ⟨by simpa [List.mk_mem_zipIdx_iff_getElem?] using hd, hp⟩, rfl⟩

theorem mem_candidates {t : SymbolTable} {k : SymbolKey} {d : Declaration} :
    d ∈ (t.candidates k).map (·.2) ↔ d ∈ t.declarations ∧ d.symbol = k := by
  rw [List.mem_map]
  constructor
  · rintro ⟨⟨i, d⟩, hd, rfl⟩
    obtain ⟨hi, hk⟩ := mem_declarationsWhere.1 hd
    exact ⟨List.mem_of_getElem? hi, by simpa using hk⟩
  · rintro ⟨hd, hk⟩
    obtain ⟨i, hi⟩ := List.getElem?_of_mem hd
    exact ⟨(i, d), mem_declarationsWhere.2 ⟨hi, by simpa using hk⟩, rfl⟩

theorem key_of_find? {t : SymbolTable} {k : SymbolKey} {symbol : Symbol}
    (h : t.find? k = some symbol) : symbol.key = k := by
  obtain ⟨facts, -, rfl⟩ := Option.map_eq_some_iff.1 h
  rfl

theorem exists_symbol {t : SymbolTable} {i : DeclId} {d : Declaration}
    (h : t.declaration? i = some d) : ∃ symbol, t.find? d.symbol = some symbol := by
  have hknown := t.known d (List.mem_of_getElem? h)
  obtain ⟨facts, hfacts⟩ := Option.isSome_iff_exists.1 hknown
  exact ⟨_, by rw [find?, hfacts]; rfl⟩

/-- A symbol stays in the table when the traits of a symbol change, which is then in it, too. -/
theorem find?_updateTraits (t : SymbolTable) (k j : SymbolKey) (change : SymbolTraits → SymbolTraits)
    (h : (t.find? j).isSome = true ∨ j = k) : ((t.updateTraits k change).find? j).isSome = true := by
  rw [find?, Option.isSome_map] at h ⊢
  exact OrderedMap.contains_upsert.2 h.symm


end SymbolTable

end IncludeAudit
