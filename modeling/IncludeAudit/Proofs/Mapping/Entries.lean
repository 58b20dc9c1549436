import IncludeAudit.Mapping.Load
import IncludeAudit.Proofs.FileName.ReadingBack
import IncludeAudit.Proofs.Provider.Gains
import Mathlib.Data.List.Forall2

/-!
# What entries of mapping files add

An entry that is no reference adds one thing to the builder, an edge or a header of a symbol, unless
its pattern cannot be read. `Gives` says which one, and which delimiters the entry has to have;
`Faulty` says what is wrong with an entry that lacks them.

* `gives_of_addEntry`, `faulty_of_addEntry`: one entry;
* `receives_of_addAll`: entries in turn.
-/

namespace IncludeAudit

open FileName (Delimited)

namespace MappingRow

variable {row : MappingRow}

/-- The mapping of a row, with the kind and the source of its pattern. -/
def mapping (row : MappingRow) (kind : MatchKind) (source : String) : GivenMapping :=
  ⟨kind, source, row.visibility, .ofText row.target, row.targetVisibility⟩

/-- The mapping of a row whose source tells by itself of which kind it is. `@` marks an expression,
and among the others a wildcard makes a glob. -/
inductive Tells (row : MappingRow) : GivenMapping → Prop where
  | expression {rest : List Char} (h : row.source.toList = '@' :: rest) :
    Tells row (row.mapping .regex (String.ofList rest))
  | glob (h : row.source.toList.head? ≠ some '@')
    (hwild : ∃ c ∈ row.source.toList, c = '*' ∨ c = '?' ∨ c = '[') :
    Tells row (row.mapping .glob row.source)
  | exact (h : row.source.toList.head? ≠ some '@')
    (hplain : ∀ c ∈ row.source.toList, c ≠ '*' ∧ c ≠ '?' ∧ c ≠ '[') :
    Tells row (row.mapping .exact row.source)

/-- The mapping of a row with the kind that is detected. -/
def detected (row : MappingRow) : GivenMapping :=
  row.mapping (MatchKind.detect row.source).1 (MatchKind.detect row.source).2

theorem tells_detected (row : MappingRow) : row.Tells row.detected := by
  unfold detected MatchKind.detect
  split
  · rename_i rest hsource
    exact .expression hsource
  · rename_i hmark
    have hhead : row.source.toList.head? ≠ some '@' := fun h => by
      obtain ⟨rest, hrest⟩ := List.head?_eq_some_iff.1 h
      exact hmark rest hrest
    dsimp only
    split
    · rename_i hwild
      refine .glob hhead ?_
      simpa only [List.any_eq_true, Bool.or_eq_true, beq_iff_eq, or_assoc] using hwild
    · rename_i hplain
      refine .exact hhead ?_
      simpa only [List.any_eq_true, Bool.or_eq_true, beq_iff_eq, or_assoc, not_exists, not_and,
        not_or] using hplain

end MappingRow

/-- The row of an entry that is no reference. -/
def MappingEntry.given? : MappingEntry → Option MappingRow
  | file row | symbol row | explicit row _ => some row
  | ref _ => none

/-- What is wrong with an entry: its target has no delimiters, or its source has none and is no
expression, and it does not say of which kind it is. -/
inductive MappingEntry.Faulty : MappingEntry → EntryFault → Prop where
  | target {entry : MappingEntry} {row : MappingRow} (hrow : entry.given? = some row)
    (h : ¬ Delimited row.target) : Faulty entry (.target row.target)
  | source {row : MappingRow} (htarget : Delimited row.target) (h : ¬ Delimited row.source)
    (hmark : row.source.toList.head? ≠ some '@') : Faulty (.file row) (.source row.source)

namespace MappingSource

/-- What an entry adds, if it has the delimiters that it needs. -/
inductive Gives (source : MappingSource) : MappingEntry → Gain → Prop where
  | file {row mapping} (target : Delimited row.target)
    (pattern : Delimited row.source ∨ row.source.toList.head? = some '@')
    (h : row.Tells mapping) : Gives source (.file row) (mapping.gain source.patterns)
  | symbol {row} (target : Delimited row.target) :
    Gives source (.symbol row) (.header row.source (.ofText row.target) row.targetVisibility)
  | kind {row kind} (target : Delimited row.target) :
    Gives source (.explicit row (some kind)) ((row.mapping kind row.source).gain source.patterns)
  | noKind {row mapping} (target : Delimited row.target) (h : row.Tells mapping) :
    Gives source (.explicit row none) (mapping.gain source.patterns)

/-! ## One entry -/

variable {source : MappingSource} {b b' : ProviderBuilder} {entry : MappingEntry}
  {row : MappingRow} {fault : EntryFault} {anySource : Bool} {log : List (Path × MappingEntry)}

theorem checkRow_ok (h : checkRow row anySource = .ok ()) :
    Delimited row.target ∧
      (anySource = true ∨ Delimited row.source ∨ row.source.toList.head? = some '@') := by
  simp only [checkRow, ← FileName.isDelimited_iff] at h ⊢
  split at h
  · cases h
  · rename_i htarget
    split at h
    · rename_i hsource
      refine ⟨by simpa using htarget, ?_⟩
      simpa [or_assoc] using hsource
    · cases h

theorem checkRow_error (h : checkRow row anySource = .error fault) :
    (fault = .target row.target ∧ ¬ Delimited row.target) ∨
      (fault = .source row.source ∧ anySource = false ∧ Delimited row.target ∧
        ¬ Delimited row.source ∧ row.source.toList.head? ≠ some '@') := by
  simp only [checkRow, ← FileName.isDelimited_iff] at h ⊢
  split at h
  · rename_i htarget
    cases h
    exact .inl ⟨rfl, by simpa using htarget⟩
  · rename_i htarget
    split at h
    · cases h
    · rename_i hsource
      cases h
      refine .inr ⟨rfl, ?_⟩
      simp only [Bool.or_eq_true, beq_iff_eq, not_or, Bool.not_eq_true] at hsource
      exact ⟨hsource.1.1, by simpa using htarget, by simpa using hsource.1.2, hsource.2⟩

/-- What an entry adds that is taken. -/
theorem gives_of_addEntry (h : source.addEntry b entry = .ok b')
    (hentry : ∀ name, entry ≠ .ref name) :
    ∃ gain, source.Gives entry gain ∧ b.Receives b' [gain] := by
  cases entry with
  | file row =>
    obtain ⟨_, hcheck, h⟩ := bind_ok h
    cases h
    obtain ⟨htarget, hsource⟩ := checkRow_ok hcheck
    exact ⟨_, .file htarget (hsource.resolve_left Bool.false_ne_true) row.tells_detected,
      b.receives_addGiven source.patterns row.detected⟩
  | symbol row =>
    obtain ⟨_, hcheck, h⟩ := bind_ok h
    cases h
    exact ⟨_, .symbol (checkRow_ok hcheck).1, b.receives_addHeader ..⟩
  | explicit row kind? =>
    obtain ⟨_, hcheck, h⟩ := bind_ok h
    have htarget := (checkRow_ok hcheck).1
    cases kind? with
    | none =>
      cases h
      exact ⟨_, .noKind htarget row.tells_detected,
        b.receives_addGiven source.patterns row.detected⟩
    | some kind =>
      cases h
      exact ⟨_, .kind htarget,
        b.receives_addGiven source.patterns (row.mapping kind row.source)⟩
  | ref name => exact absurd rfl (hentry name)

theorem faulty_of_checkRow (hrow : entry.given? = some row)
    (h : checkRow row anySource = .error fault) (hfile : anySource = false → entry = .file row) :
    entry.Faulty fault := by
  rcases checkRow_error h with ⟨rfl, htarget⟩ | ⟨rfl, hany, htarget, hsource, hmark⟩
  · exact .target hrow htarget
  · rw [hfile hany]
    exact .source htarget hsource hmark

/-- An entry that is not taken has the fault that is told of it. -/
theorem faulty_of_addEntry (h : source.addEntry b entry = .error fault) : entry.Faulty fault := by
  cases entry with
  | file row => exact faulty_of_checkRow rfl (bind_error h fun _ => nofun) fun _ => rfl
  | symbol row => exact faulty_of_checkRow rfl (bind_error h fun _ => nofun) nofun
  | explicit row kind? =>
    refine faulty_of_checkRow rfl (bind_error h fun _ => ?_) nofun
    cases kind? <;> exact nofun
  | ref name => cases h

/-! ## Entries in turn -/

/-- Adds entries in turn. -/
def addAll (source : MappingSource) (b : ProviderBuilder) (log : List (Path × MappingEntry)) :
    Except EntryFault ProviderBuilder :=
  log.foldlM (fun b x => source.addEntry b x.2) b

/-- Each entry adds one thing, and these are added in the order of the entries. -/
theorem receives_of_addAll (h : source.addAll b log = .ok b')
    (hlog : ∀ x ∈ log, ∀ name, x.2 ≠ .ref name) :
    ∃ gains, List.Forall₂ (fun x gain => source.Gives x.2 gain) log gains ∧
      b.Receives b' gains := by
  induction log generalizing b with
  | nil =>
    cases h
    exact ⟨[], .nil, .refl _⟩
  | cons x log ih =>
    obtain ⟨hx, hlog⟩ := List.forall_mem_cons.1 hlog
    obtain ⟨b₁, hadd, h⟩ := bind_ok h
    obtain ⟨gain, hgives, hgain⟩ := gives_of_addEntry hadd hx
    obtain ⟨gains, hall, hgains⟩ := ih h hlog
    exact ⟨gain :: gains, .cons hgives hall, hgain.trans hgains⟩

end MappingSource

end IncludeAudit
