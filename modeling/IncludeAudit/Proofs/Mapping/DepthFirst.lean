import IncludeAudit.Proofs.Mapping.Failures
import Mathlib.Data.List.Perm.Basic
import Mathlib.Logic.Relation

/-!
# The order in which mapping files are loaded

`DepthFirst` walks the references of mapping files depth first and knows of neither a stack nor
errors. It lists a file after those to which it refers, and each entry where the walk meets it.

* `Runs.walks`: a load that succeeds is such a walk, and the builder gets the entries that it lists;
* `DepthFirst.perm`: these are the entries of the listed files, those of each once;
* `DepthFirst.postOrder`: a file comes after those to which it refers;
* `InPostOrder.acyclic`: so the references of the listed files make no cycle.
-/

namespace IncludeAudit

/-- True of a reference. -/
def MappingEntry.isRef : MappingEntry → Bool
  | ref _ => true
  | file _ | symbol _ | explicit _ _ => false

theorem MappingEntry.isRef_eq_false {e : MappingEntry} (h : ∀ name, e ≠ .ref name) :
    e.isRef = false := by
  cases e with
  | ref name => exact absurd rfl (h name)
  | file | symbol | explicit => rfl

namespace MappingSource

open scoped List

/-! ## The walk -/

/-- From the files that were seen before, a task leads to new files and to entries of these, each
with its file. -/
inductive DepthFirst (source : MappingSource) :
    Task → List Path → List Path → List (Path × MappingEntry) → Prop where
  | again {p seen} (h : p.components ∈ Path.keys seen) : DepthFirst source (.load p) seen [] []
  | first {p seen entries new log} (h : p.components ∉ Path.keys seen)
    (he : source.entriesOf p = .ok entries)
    (hw : DepthFirst source (.add p entries) seen new log) :
    DepthFirst source (.load p) seen (new ++ [p]) log
  | none {origin seen} : DepthFirst source (.add origin []) seen [] []
  | entry {origin entry entries seen new log} (h : ∀ name, entry ≠ .ref name)
    (hw : DepthFirst source (.add origin entries) seen new log) :
    DepthFirst source (.add origin (entry :: entries)) seen new ((origin, entry) :: log)
  | ref {origin name entries p seen new₁ new₂ log₁ log₂}
    (h : source.Names origin name p)
    (hp : DepthFirst source (.load p) seen new₁ log₁)
    (hw : DepthFirst source (.add origin entries) (seen ++ new₁) new₂ log₂) :
    DepthFirst source (.add origin (.ref name :: entries)) seen (new₁ ++ new₂) (log₁ ++ log₂)

variable {source : MappingSource} {w : Task} {l l' : Loader} {p q : Path}
  {seen new new₁ new₂ : List Path} {log : List (Path × MappingEntry)}

/-- What a task did is a walk: the new files are put after the loaded ones, and the builder got the
entries. -/
structure Walks (source : MappingSource) (w : Task) (s s' : Loaded) (new : List Path)
    (log : List (Path × MappingEntry)) : Prop where
  order : DepthFirst source w s.paths new log
  paths : s'.paths = s.paths ++ new
  builder : source.addAll s.builder log = .ok s'.builder

theorem Runs.walks (h : Runs source w l .done l') :
    ∃ new log, source.Walks w l.state l'.state new log := by
  generalize hr : Ending.done = r at h
  induction h with
  | cycle | unread | broken | faulty | missing | stuck => cases hr
  | known _ hk => exact ⟨[], [], .again hk, (List.append_nil _).symm, rfl⟩
  | none => exact ⟨[], [], .none, (List.append_nil _).symm, rfl⟩
  | read h he _ ih =>
    obtain ⟨new, log, horder, hpaths, hbuilder⟩ := ih rfl
    refine ⟨_, log, .first h.unloaded he horder, ?_, hbuilder⟩
    rw [← List.append_assoc]
    exact congrArg (· ++ [_]) hpaths
  | added h ha _ ih =>
    obtain ⟨new, log, horder, hpaths, hbuilder⟩ := ih hr
    refine ⟨new, _, .entry h horder, hpaths, ?_⟩
    rw [addAll, List.foldlM_cons, ha]
    exact hbuilder
  | followed h _ _ ihp ih =>
    obtain ⟨new₁, log₁, horder₁, hpaths₁, hbuilder₁⟩ := ihp rfl
    obtain ⟨new₂, log₂, horder₂, hpaths₂, hbuilder₂⟩ := ih hr
    rw [hpaths₁] at horder₂
    refine ⟨_, _, .ref (findRef?_eq_some.1 h) horder₁ horder₂, ?_, ?_⟩
    · rw [hpaths₂, hpaths₁, List.append_assoc]
    · rw [addAll] at hbuilder₁
      rw [addAll, List.foldlM_append, hbuilder₁]
      exact hbuilder₂

/-! ## Entries -/

/-- The entries of a file that are no references. -/
def ownEntries (source : MappingSource) (p : Path) : List MappingEntry :=
  match source.entriesOf p with
  | .ok entries => entries.filter (!·.isRef)
  | .error _ => []

/-- The same entries, each with its file. -/
def own (source : MappingSource) (p : Path) : List (Path × MappingEntry) :=
  (source.ownEntries p).map (p, ·)

/-- The entries that a task has to add itself. -/
def Task.own : Task → List (Path × MappingEntry)
  | load _ => []
  | add origin entries => (entries.filter (!·.isRef)).map (origin, ·)

/-- The walk meets the entries of the new files, and those of each once. -/
theorem DepthFirst.perm (h : DepthFirst source w seen new log) :
    log.Perm (w.own ++ new.flatMap source.own) := by
  induction h with
  | again | none => exact .nil
  | @first p _ entries new log _ he _ ih =>
    have hown : (Task.add p entries).own = source.own p := by
      simp [Task.own, own, ownEntries, he]
    rw [hown] at ih
    refine ih.trans (List.perm_append_comm.trans ?_)
    simp [Task.own]
  | entry h _ ih => simpa [Task.own, MappingEntry.isRef_eq_false h] using ih
  | @ref origin _ entries _ _ new₁ new₂ log₁ log₂ _ _ _ ihp ih =>
    calc log₁ ++ log₂
      _ ~ new₁.flatMap source.own ++
          ((Task.add origin entries).own ++ new₂.flatMap source.own) := ihp.append ih
      _ ~ (Task.add origin entries).own ++
          (new₁.flatMap source.own ++ new₂.flatMap source.own) := by
        rw [← List.append_assoc, ← List.append_assoc]
        exact List.perm_append_comm.append_right _
      _ = (Task.add origin entries).own ++ (new₁ ++ new₂).flatMap source.own := by
        rw [List.flatMap_append]

/-- The walk lists no references. -/
theorem DepthFirst.ne_ref (h : DepthFirst source w seen new log) :
    ∀ x ∈ log, ∀ name, x.2 ≠ .ref name := by
  induction h with
  | again | none => exact List.forall_mem_nil _
  | first _ _ _ ih => exact ih
  | entry h _ ih => exact List.forall_mem_cons.2 ⟨h, ih⟩
  | ref _ _ _ ihp ih => exact List.forall_mem_append.2 ⟨ihp, ih⟩

/-! ## References -/

/-- All references of a file lead to some files. -/
def RefsAmong (source : MappingSource) (p : Path) (ps : List Path) : Prop :=
  ∃ entries, source.entriesOf p = .ok entries ∧ ∀ name, .ref name ∈ entries →
    ∃ q, source.Names p name q ∧ q.components ∈ Path.keys ps

/-- Each file is listed after those to which it refers, unless these were seen before. -/
def InPostOrder (source : MappingSource) (seen new : List Path) : Prop :=
  ∀ before p after, new = before ++ p :: after → source.RefsAmong p (seen ++ before)

/-- The files to which a task leads are among some files. -/
def Task.Achieved (source : MappingSource) (ps : List Path) : Task → Prop
  | load p => p.components ∈ Path.keys ps
  | add origin entries => ∀ name, .ref name ∈ entries →
    ∃ q, source.Names origin name q ∧ q.components ∈ Path.keys ps

theorem RefsAmong.mem (h : source.RefsAmong p new) (hq : source.Refers p q) :
    q.components ∈ Path.keys new := by
  obtain ⟨entries, he, hrefs⟩ := h
  obtain ⟨entries', name, he', hname, hfind⟩ := hq
  rw [he] at he'
  cases he'
  obtain ⟨q', hfind', hmem⟩ := hrefs name hname
  obtain rfl : q' = q := hfind'.unique hfind
  exact hmem

theorem InPostOrder.nil : source.InPostOrder seen [] := by
  intro before p after h
  simp at h

theorem InPostOrder.singleton (h : source.RefsAmong p seen) : source.InPostOrder seen [p] := by
  intro before q after hsplit
  obtain ⟨rfl, rfl, rfl⟩ : before = [] ∧ p = q ∧ after = [] := by
    cases before with
    | nil => simpa [eq_comm] using hsplit
    | cons b before => simp at hsplit
  rwa [List.append_nil]

theorem InPostOrder.append (h₁ : source.InPostOrder seen new₁)
    (h₂ : source.InPostOrder (seen ++ new₁) new₂) : source.InPostOrder seen (new₁ ++ new₂) := by
  intro before p after hsplit
  rcases List.append_eq_append_iff.1 hsplit with ⟨mid, rfl, hnew⟩ | ⟨mid, hnew, hrest⟩
  · rw [← List.append_assoc]
    exact h₂ mid p after hnew
  · cases mid with
    | nil =>
      rw [List.append_nil] at hnew
      subst hnew
      simpa using h₂ [] p after hrest.symm
    | cons q mid =>
      cases hrest
      exact h₁ before p mid hnew

theorem DepthFirst.postOrder (h : DepthFirst source w seen new log) :
    source.InPostOrder seen new ∧ w.Achieved source (seen ++ new) := by
  induction h with
  | again h => exact ⟨.nil, by rwa [List.append_nil]⟩
  | none => exact ⟨.nil, fun _ h => absurd h List.not_mem_nil⟩
  | first _ he _ ih =>
    refine ⟨ih.1.append (.singleton ⟨_, he, ih.2⟩), ?_⟩
    simp [Task.Achieved]
  | entry h _ ih =>
    refine ⟨ih.1, fun name hname => ih.2 name ?_⟩
    exact (List.mem_cons.1 hname).resolve_left fun he => h name he.symm
  | ref h _ _ ihp ih =>
    refine ⟨ihp.1.append ih.1, fun name hname => ?_⟩
    rw [← List.append_assoc]
    rcases List.mem_cons.1 hname with he | hname
    · cases he
      refine ⟨_, h, ?_⟩
      rw [Path.keys_append]
      exact List.mem_append_left _ ihp.2
    · exact ih.2 name hname

/-! ## Cycles -/

/-- One of the files refers from the one place to the other. -/
def Follows (source : MappingSource) (new : List Path) (a b : List PathPart) : Prop :=
  ∃ p ∈ new, ∃ q, source.Refers p q ∧ p.components = a ∧ q.components = b

/-- A reference leads to a place before that of its file. -/
theorem InPostOrder.idxOf_lt (h : source.InPostOrder seen new) (hd : (Path.keys new).Nodup)
    (hs : (Path.keys new).Disjoint (Path.keys seen)) {a b : List PathPart}
    (hf : source.Follows new a b) :
    (Path.keys (seen ++ new)).idxOf b < (Path.keys (seen ++ new)).idxOf a := by
  obtain ⟨p, hp, q, hq, rfl, rfl⟩ := hf
  obtain ⟨before, after, rfl⟩ := List.append_of_mem hp
  have hmem : q.components ∈ Path.keys (seen ++ before) := (h before p after rfl).mem hq
  have hfirst : p.components ∉ Path.keys (seen ++ before) := by
    rw [Path.keys_append, List.mem_append, not_or]
    rw [Path.keys_append, Path.keys_cons, List.disjoint_append_left, List.disjoint_cons_left] at hs
    rw [Path.keys_append, Path.keys_cons] at hd
    exact ⟨hs.2.1, fun hb => List.disjoint_of_nodup_append hd hb List.mem_cons_self⟩
  rw [← List.append_assoc, Path.keys_append, Path.keys_cons, List.idxOf_append_of_mem hmem,
    List.idxOf_append_of_notMem hfirst]
  exact Nat.lt_of_lt_of_le (List.idxOf_lt_length_of_mem hmem) (Nat.le_add_right _ _)

theorem InPostOrder.acyclic (h : source.InPostOrder seen new) (hd : (Path.keys new).Nodup)
    (hs : (Path.keys new).Disjoint (Path.keys seen)) (a : List PathPart) :
    ¬ Relation.TransGen (source.Follows new) a a := by
  have hlt : ∀ {b}, Relation.TransGen (source.Follows new) a b →
      (Path.keys (seen ++ new)).idxOf b < (Path.keys (seen ++ new)).idxOf a := by
    intro b hb
    induction hb with
    | single hf => exact h.idxOf_lt hd hs hf
    | tail _ hf ih => exact (h.idxOf_lt hd hs hf).trans ih
  exact fun ha => Nat.lt_irrefl _ (hlt ha)

end MappingSource

end IncludeAudit
