import IncludeAudit.Proofs.Use.Claims

/-!
# Which declarations are candidates

The candidates of a use are found by filters, one after the other. Here they are told by the table
alone: a declaration is a candidate if it has the specialization that the use asks for, as far as
anything has it (`Suits`), and if it is reachable, as far as anything that suits the use is reachable
(`IsCandidate`).

* `areThose_suiting`: the declarations that suit a use;
* `areThose_ofUse`: the candidates.
-/

namespace IncludeAudit

namespace SymbolTable

variable {t : SymbolTable} {reach : Reachability} {u : Use} {d : Declaration}

/-- Something declares exactly the specialization that a use names. -/
def DeclaresNamed (t : SymbolTable) (u : Use) : Prop :=
  u.specialization ≠ none ∧
    ∃ d ∈ t.declarations, d.symbol = u.symbol ∧ d.specialization = u.specialization

/-- Something declares the symbol of a use without a specialization. -/
def DeclaresPrimary (t : SymbolTable) (u : Use) : Prop :=
  ∃ d ∈ t.declarations, d.symbol = u.symbol ∧ d.specialization = none

/-- A declaration of the symbol that has the specialization which the use names. If none has it, one
without a specialization; if there is none either, any. -/
def Suits (t : SymbolTable) (u : Use) (d : Declaration) : Prop :=
  d.symbol = u.symbol ∧ (t.DeclaresNamed u → d.specialization = u.specialization) ∧
    (¬ t.DeclaresNamed u → t.DeclaresPrimary u → d.specialization = none)

/-- A declaration that suits the use and is reachable. If none of those is reachable, any of them. -/
def IsCandidate (t : SymbolTable) (reach : Reachability) (u : Use) (d : Declaration) : Prop :=
  t.Suits u d ∧
    ((∃ e ∈ t.declarations, t.Suits u e ∧ (reach u.referencingFile e.file).isSome = true) →
      (reach u.referencingFile d.file).isSome = true)

instance : Decidable (t.DeclaresNamed u) :=
  inferInstanceAs (Decidable (_ ∧ _))

instance : Decidable (t.DeclaresPrimary u) :=
  inferInstanceAs (Decidable (∃ d ∈ t.declarations, _))

instance : Decidable (t.Suits u d) :=
  inferInstanceAs (Decidable (_ ∧ _ ∧ _))

instance : Decidable (t.IsCandidate reach u d) :=
  inferInstanceAs (Decidable (_ ∧ _))

theorem IsCandidate.eq_named (h : t.IsCandidate reach u d) (hnamed : t.DeclaresNamed u) :
    d.specialization = u.specialization :=
  h.1.2.1 hnamed

theorem IsCandidate.eq_primary (h : t.IsCandidate reach u d) (hnamed : ¬ t.DeclaresNamed u)
    (hprimary : t.DeclaresPrimary u) : d.specialization = none :=
  h.1.2.2 hnamed hprimary

end SymbolTable

namespace Candidate

variable {t : SymbolTable} {reach : Reachability} {u : Use} {c : Candidate} {cs : List Candidate}
  {f : FileName} {Q : Declaration → Prop}

/-- The candidates are the declarations with a property, with their distances from a file. -/
def AreThose (t : SymbolTable) (reach : Reachability) (f : FileName) (Q : Declaration → Prop)
    (cs : List Candidate) : Prop :=
  ∀ c, c ∈ cs ↔ t.declaration? c.id = some c.declaration ∧ Q c.declaration ∧
    c.distance = reach f c.declaration.file

/-- Some candidate is such if some declaration is, since each declaration has an index. -/
theorem AreThose.exists_iff (h : AreThose t reach f Q cs) (p : Declaration → Option Nat → Prop) :
    (∃ c ∈ cs, p c.declaration c.distance) ↔
      ∃ d ∈ t.declarations, Q d ∧ p d (reach f d.file) := by
  constructor
  · rintro ⟨c, hc, hp⟩
    obtain ⟨hd, hQ, hdistance⟩ := (h c).1 hc
    exact ⟨c.declaration, List.mem_of_getElem? hd, hQ, hdistance ▸ hp⟩
  · rintro ⟨d, hd, hQ, hp⟩
    obtain ⟨i, hi⟩ := List.getElem?_of_mem hd
    exact ⟨⟨i, d, reach f d.file⟩, (h _).2 ⟨hi, hQ, rfl⟩, hp⟩

theorem areThose_ofSymbol (t : SymbolTable) (reach : Reachability) (f : FileName) (k : SymbolKey) :
    AreThose t reach f (·.symbol = k) (ofSymbol t reach f k) := by
  intro c
  simp only [ofSymbol, List.mem_map, Prod.exists, SymbolTable.candidates,
    SymbolTable.mem_declarationsWhere, beq_iff_eq]
  constructor
  · rintro ⟨i, d, ⟨hd, hk⟩, rfl⟩
    exact ⟨hd, hk, rfl⟩
  · rintro ⟨hd, hk, hdistance⟩
    exact ⟨c.id, c.declaration, ⟨hd, hk⟩, by rw [← hdistance]⟩

theorem isOf_iff {specialization : Option String} :
    isOf specialization c = true ↔ c.declaration.specialization = specialization :=
  beq_iff_eq

/-- Some declaration of the symbol of a use has the given specialization. -/
theorem exists_isOf_iff (specialization : Option String) :
    (∃ e ∈ ofSymbol t reach f u.symbol, isOf specialization e = true) ↔
      ∃ d ∈ t.declarations, d.symbol = u.symbol ∧ d.specialization = specialization := by
  simp only [isOf_iff]
  exact (areThose_ofSymbol t reach f u.symbol).exists_iff fun d _ =>
    d.specialization = specialization

/-- The declarations that suit a use. -/
theorem areThose_suiting (t : SymbolTable) (reach : Reachability) (f : FileName) (u : Use) :
    AreThose t reach f (t.Suits u)
      (suiting u.specialization (ofSymbol t reach f u.symbol)) := by
  intro c
  have hnamed : Named u.specialization (ofSymbol t reach f u.symbol) ↔ t.DeclaresNamed u :=
    and_congr_right fun _ => exists_isOf_iff u.specialization
  have hprimary : (∃ e ∈ ofSymbol t reach f u.symbol, isOf none e = true) ↔ t.DeclaresPrimary u :=
    exists_isOf_iff none
  rw [mem_suiting, areThose_ofSymbol t reach f u.symbol c, hnamed, hprimary, isOf_iff, isOf_iff,
    SymbolTable.Suits]
  exact ⟨fun ⟨⟨hd, hk, hdistance⟩, h⟩ => ⟨hd, ⟨hk, h⟩, hdistance⟩,
    fun ⟨hd, ⟨hk, h⟩, hdistance⟩ => ⟨⟨hd, hk, hdistance⟩, h⟩⟩

/-- The candidates of a use. -/
theorem areThose_ofUse (t : SymbolTable) (reach : Reachability) (u : Use) :
    AreThose t reach u.referencingFile (t.IsCandidate reach u) (ofUse t reach u) := by
  intro c
  have hsuiting := areThose_suiting t reach u.referencingFile u
  have hreachable := hsuiting.exists_iff fun _ distance => distance.isSome = true
  rw [ofUse, mem_preferring, hsuiting c]
  simp only [isReachable, hreachable, SymbolTable.IsCandidate]
  constructor
  · rintro ⟨⟨hd, hsuits, hdistance⟩, h⟩
    exact ⟨hd, ⟨hsuits, fun he => hdistance ▸ h he⟩, hdistance⟩
  · rintro ⟨hd, ⟨hsuits, h⟩, hdistance⟩
    exact ⟨⟨hd, hsuits, hdistance⟩, fun he => hdistance ▸ h he⟩

/-- A use has no candidates if nothing declares its symbol. -/
theorem ofUse_eq_nil_iff :
    ofUse t reach u = [] ↔ ∀ d ∈ t.declarations, d.symbol ≠ u.symbol := by
  rw [ofUse_eq_nil, ← List.map_eq_nil_iff (f := Prod.snd), List.eq_nil_iff_forall_not_mem]
  simp only [SymbolTable.mem_candidates, not_and]

end Candidate

end IncludeAudit
