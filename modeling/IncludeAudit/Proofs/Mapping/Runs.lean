import IncludeAudit.Mapping.Load
import Mathlib.Data.List.Nodup

/-!
# Runs of the mapping loader

What the loader does, rule by rule, with the files that it is reading on a stack: a file is put on
the stack before its entries are added and taken off after that, whatever came of it. No rule says
that the stack is in order, or that following references ends; both are proved.

* `Runs.stack_eq`: a run leaves the stack as it was;
* `runs_iff`: the load of a file ends, in one way only, and `loadWithin` gives what is loaded then.
-/

namespace IncludeAudit

namespace Path

/-- The components of each path: what tells files apart. -/
def keys (ps : List Path) : List (List PathPart) :=
  ps.map components

@[simp]
theorem keys_nil : keys [] = [] :=
  rfl

@[simp]
theorem keys_cons (p : Path) (ps : List Path) : keys (p :: ps) = p.components :: keys ps :=
  rfl

@[simp]
theorem keys_append (ps qs : List Path) : keys (ps ++ qs) = keys ps ++ keys qs :=
  List.map_append

end Path

theorem RefStack.contains_iff {s : RefStack} {p : Path} :
    s.contains p = true ↔ p.components ∈ Path.keys s.paths := by
  simp [contains, Path.keys]

theorem RefStack.contains_eq_false {s : RefStack} {p : Path} :
    s.contains p = false ↔ p.components ∉ Path.keys s.paths := by
  rw [← contains_iff, Bool.not_eq_true]

theorem Loaded.contains_iff {s : Loaded} {p : Path} :
    s.contains p = true ↔ p.components ∈ Path.keys s.paths := by
  rw [contains, List.any_eq_true, Path.keys, List.mem_map]
  exact exists_congr fun q => and_congr_right fun _ => beq_iff_eq.trans eq_comm

namespace MappingSource

variable {source : MappingSource}

/-- The entries of a mapping file, or why there are none. -/
def entriesOf (source : MappingSource) (p : Path) : Except LoadError (List MappingEntry) :=
  match source.files.read p with
  | .error cause => .error (.unreadable p cause)
  | .ok text =>
    match MappingEntry.parse? source.documents (.ofPath p) text with
    | none => .error (.malformed p)
    | some entries => .ok entries

/-! ## Rules -/

/-- A loader at work. -/
structure Loader where
  /-- The files that are being read, the last one first. -/
  stack : List Path
  state : Loaded

namespace Loader

/-- Begins to read a file. -/
def push (l : Loader) (p : Path) : Loader :=
  { l with stack := p :: l.stack }

/-- Stops reading the file on top. -/
def pop (l : Loader) : Loader :=
  { l with stack := l.stack.tail }

/-- Adds a file to the loaded ones. -/
def record (l : Loader) (p : Path) : Loader :=
  { l with state := { l.state with paths := l.state.paths ++ [p] } }

/-- Puts another builder in place. -/
def withBuilder (l : Loader) (b : ProviderBuilder) : Loader :=
  { l with state := { l.state with builder := b } }

/-- A file is neither being read nor loaded. -/
structure Lacks (l : Loader) (p : Path) : Prop where
  unread : p.components ∉ Path.keys l.stack
  unloaded : p.components ∉ Path.keys l.state.paths

end Loader

/-- What a loader has to do. -/
inductive Task where
  | load (p : Path)
  /-- Adds entries of a file that is being read. -/
  | add (origin : Path) (entries : List MappingEntry)

/-- How a task ends. -/
inductive Ending where
  | done
  /-- With an error, and the files through which references led to it, the last one first. -/
  | failed (e : LoadError) (trail : List Path)

/-- The ending as a result. -/
def Ending.result : Ending → Except LoadError Unit
  | done => .ok ()
  | failed e _ => .error e

/-- A loader with a task ends as told, and as the other loader. -/
inductive Runs (source : MappingSource) : Task → Loader → Ending → Loader → Prop where
  | cycle {p l} (h : p.components ∈ Path.keys l.stack) :
    Runs source (.load p) l (.failed (.refCycle (l.stack.head?.getD p) p) (p :: l.stack)) l
  | known {p l} (h : p.components ∉ Path.keys l.stack)
    (hk : p.components ∈ Path.keys l.state.paths) : Runs source (.load p) l .done l
  | unread {p l e} (h : l.Lacks p) (he : source.entriesOf p = .error e) :
    Runs source (.load p) l (.failed e (p :: l.stack)) l
  | read {p l l' entries} (h : l.Lacks p) (he : source.entriesOf p = .ok entries)
    (hr : Runs source (.add p entries) (l.push p) .done l') :
    Runs source (.load p) l .done (l'.pop.record p)
  | broken {p l l' entries e trail} (h : l.Lacks p) (he : source.entriesOf p = .ok entries)
    (hr : Runs source (.add p entries) (l.push p) (.failed e trail) l') :
    Runs source (.load p) l (.failed e trail) l'.pop
  | none {origin l} : Runs source (.add origin []) l .done l
  | added {origin entry entries l l' b r} (h : ∀ name, entry ≠ .ref name)
    (ha : source.addEntry l.state.builder entry = .ok b)
    (hr : Runs source (.add origin entries) (l.withBuilder b) r l') :
    Runs source (.add origin (entry :: entries)) l r l'
  | faulty {origin entry entries l fault} (h : ∀ name, entry ≠ .ref name)
    (ha : source.addEntry l.state.builder entry = .error fault) :
    Runs source (.add origin (entry :: entries)) l
      (.failed (.invalidEntry origin fault) l.stack) l
  | missing {origin name entries l} (h : source.findRef? origin name = .none) :
    Runs source (.add origin (.ref name :: entries)) l
      (.failed (.missingRef origin name) l.stack) l
  | followed {origin name entries p l l₁ l₂ r} (h : source.findRef? origin name = some p)
    (hp : Runs source (.load p) l .done l₁) (hr : Runs source (.add origin entries) l₁ r l₂) :
    Runs source (.add origin (.ref name :: entries)) l r l₂
  | stuck {origin name entries p l l' e trail} (h : source.findRef? origin name = some p)
    (hp : Runs source (.load p) l (.failed e trail) l') :
    Runs source (.add origin (.ref name :: entries)) l (.failed e trail) l'

variable {w : Task} {l l' : Loader} {r : Ending}

theorem Runs.stack_eq (h : Runs source w l r l') : l'.stack = l.stack := by
  induction h with
  | cycle | known | unread | none | faulty | missing => rfl
  | read _ _ _ ih | broken _ _ _ ih => exact congrArg List.tail ih
  | added _ _ _ ih => exact ih
  | followed _ _ _ ihp ih => exact ih.trans ihp
  | stuck _ _ ih => exact ih

/-! ## The loader follows the rules -/

variable {stack : List Path} {follow : Path → Loaded → Except LoadError Unit × Loaded}

/-- Adding entries follows the rules if following a reference does. -/
theorem runs_addEntries (origin : Path)
    (hf : ∀ p s, ∃ r : Ending, r.result = (follow p s).1 ∧
      Runs source (.load p) ⟨stack, s⟩ r ⟨stack, (follow p s).2⟩) :
    ∀ entries s, ∃ r : Ending, r.result = (source.addEntries origin follow entries s).1 ∧
      Runs source (.add origin entries) ⟨stack, s⟩ r
        ⟨stack, (source.addEntries origin follow entries s).2⟩ := by
  intro entries s
  fun_induction addEntries source origin follow entries s with
  | case1 s => exact ⟨.done, rfl, .none⟩
  | case2 name entries s h => exact ⟨_, rfl, .missing h⟩
  | case3 name entries s p h e s₁ hp =>
    obtain ⟨r, hr, hrun⟩ := hf p s
    rw [hp] at hr hrun
    cases r with
    | done => cases hr
    | failed e trail =>
      cases hr
      exact ⟨_, rfl, .stuck h hrun⟩
  | case4 name entries s p h s₁ hp ih =>
    obtain ⟨r, hr, hrun⟩ := hf p s
    rw [hp] at hr hrun
    cases r with
    | failed e trail => cases hr
    | done =>
      obtain ⟨r, hr, hrest⟩ := ih
      exact ⟨r, hr, .followed h hrun hrest⟩
  | case5 entry entries s h fault ha => exact ⟨_, rfl, .faulty h ha⟩
  | case6 entry entries s h b ha ih =>
    obtain ⟨r, hr, hrest⟩ := ih
    exact ⟨r, hr, .added h ha hrest⟩

theorem lacks_of_contains {stack : RefStack} {p : Path} {s : Loaded}
    (fresh : stack.contains p = false) (unknown : ¬ s.contains p = true) :
    Loader.Lacks ⟨stack.paths, s⟩ p :=
  ⟨RefStack.contains_eq_false.1 fresh, mt Loaded.contains_iff.2 unknown⟩

theorem runs_loadWithin (source : MappingSource) (stack : RefStack) (p : Path) (s : Loaded) :
    ∃ r : Ending, r.result = (source.loadWithin stack p s).1 ∧
      Runs source (.load p) ⟨stack.paths, s⟩ r ⟨stack.paths, (source.loadWithin stack p s).2⟩ := by
  fun_induction loadWithin source stack p s with
  | case1 stack p s fresh known =>
    exact ⟨.done, rfl, .known (RefStack.contains_eq_false.1 fresh) (Loaded.contains_iff.1 known)⟩
  | case2 stack p s fresh unknown cause found =>
    exact ⟨_, rfl, .unread (lacks_of_contains fresh unknown) (by simp [entriesOf, found])⟩
  | case3 stack p s fresh unknown text found bad =>
    exact ⟨_, rfl, .unread (lacks_of_contains fresh unknown) (by simp [entriesOf, found, bad])⟩
  | case4 stack p s fresh unknown text found entries parsed inner e s₁ hadd ih =>
    obtain ⟨r, hr, hrun⟩ := runs_addEntries p ih entries s
    rw [hadd] at hr hrun
    cases r with
    | done => cases hr
    | failed e' trail =>
      cases hr
      exact ⟨_, rfl, .broken (lacks_of_contains fresh unknown)
        (by simp [entriesOf, found, parsed]) hrun⟩
  | case5 stack p s fresh unknown text found entries parsed inner s₁ hadd ih =>
    obtain ⟨r, hr, hrun⟩ := runs_addEntries p ih entries s
    rw [hadd] at hr hrun
    cases r with
    | failed e trail => cases hr
    | done => exact ⟨.done, rfl, .read (lacks_of_contains fresh unknown)
        (by simp [entriesOf, found, parsed]) hrun⟩
  | case6 stack p s reading =>
    rw [Bool.not_eq_false] at reading
    exact ⟨_, rfl, .cycle (RefStack.contains_iff.1 reading)⟩

/-- A task ends in one way only. In each case the other run has to end by the same rule: the rules
for a load differ in where the file is found, those for entries in what the first one is. -/
theorem Runs.unique {r₂ : Ending} {l₂ : Loader} (h : Runs source w l r l')
    (h₂ : Runs source w l r₂ l₂) : r₂ = r ∧ l₂ = l' := by
  induction h generalizing r₂ l₂ with
  | cycle | known | unread | read | broken => cases h₂ <;> grind [Loader.Lacks]
  | none => cases h₂; exact ⟨rfl, rfl⟩
  | added | faulty | missing | followed | stuck => cases h₂ <;> grind

/-- The load of a file ends in one way only. What is loaded then is what `loadWithin` gives, and the
stack is the one before. -/
theorem runs_iff (source : MappingSource) (stack : RefStack) (p : Path) (s : Loaded) :
    ∃ ending : Ending, ending.result = (source.loadWithin stack p s).1 ∧
      ∀ r l, Runs source (.load p) ⟨stack.paths, s⟩ r l ↔
        r = ending ∧ l = ⟨stack.paths, (source.loadWithin stack p s).2⟩ := by
  obtain ⟨ending, hresult, hrun⟩ := runs_loadWithin source stack p s
  refine ⟨ending, hresult, fun r l => ⟨hrun.unique, ?_⟩⟩
  rintro ⟨rfl, rfl⟩
  exact hrun

/-! ## Newly loaded files -/

/-- Some files were loaded, all different, of which none had been loaded or was being read. -/
structure Loader.Grows (l l' : Loader) (new : List Path) : Prop where
  paths : l'.state.paths = l.state.paths ++ new
  distinct : (Path.keys new).Nodup
  unloaded : (Path.keys new).Disjoint (Path.keys l.state.paths)
  unread : (Path.keys new).Disjoint (Path.keys l.stack)

namespace Loader.Grows

variable {l₁ l₂ : Loader} {p : Path} {new new₁ new₂ : List Path}

theorem refl (l : Loader) : l.Grows l [] where
  paths := (List.append_nil _).symm
  distinct := List.nodup_nil
  unloaded := List.disjoint_nil_left _
  unread := List.disjoint_nil_left _

theorem trans (h₁ : l.Grows l₁ new₁) (h₂ : l₁.Grows l₂ new₂) (hs : l₁.stack = l.stack) :
    l.Grows l₂ (new₁ ++ new₂) := by
  have hloaded := h₂.unloaded
  rw [h₁.paths, Path.keys_append, List.disjoint_append_right] at hloaded
  constructor
  · rw [h₂.paths, h₁.paths, List.append_assoc]
  · rw [Path.keys_append]
    exact h₁.distinct.append h₂.distinct (List.disjoint_comm.1 hloaded.2)
  · rw [Path.keys_append, List.disjoint_append_left]
    exact ⟨h₁.unloaded, hloaded.1⟩
  · rw [Path.keys_append, List.disjoint_append_left]
    exact ⟨h₁.unread, hs ▸ h₂.unread⟩

theorem pop (h : (l.push p).Grows l' new) : l.Grows l'.pop new where
  paths := h.paths
  distinct := h.distinct
  unloaded := h.unloaded
  unread := (List.disjoint_cons_right.1 h.unread).2

/-- Whatever the entries of a file load, the file itself is not among it, for it is on the stack. -/
theorem not_mem_self (h : (l.push p).Grows l' new) : p.components ∉ Path.keys new :=
  (List.disjoint_cons_right.1 h.unread).1

theorem unloaded_self (h : (l.push p).Grows l' new) (hp : l.Lacks p) :
    p.components ∉ Path.keys l'.state.paths := by
  rw [h.paths, Path.keys_append, List.mem_append, not_or]
  exact ⟨hp.unloaded, h.not_mem_self⟩

theorem record (h : (l.push p).Grows l' new) (hp : l.Lacks p) :
    l.Grows (l'.pop.record p) (new ++ [p]) := by
  constructor
  · rw [← List.append_assoc]
    exact congrArg (· ++ [p]) h.paths
  · rw [Path.keys_append]
    exact h.distinct.append (List.nodup_singleton _) (List.disjoint_singleton.2 h.not_mem_self)
  · rw [Path.keys_append, List.disjoint_append_left]
    exact ⟨h.unloaded, List.singleton_disjoint.2 hp.unloaded⟩
  · rw [Path.keys_append, List.disjoint_append_left]
    exact ⟨h.pop.unread, List.singleton_disjoint.2 hp.unread⟩

/-- So no file is listed twice afterwards, if none was before. -/
theorem nodup_iff (h : l.Grows l' new) :
    (Path.keys l'.state.paths).Nodup ↔ (Path.keys l.state.paths).Nodup := by
  rw [h.paths, Path.keys_append]
  exact ⟨List.Nodup.of_append_left, fun hd => hd.append h.distinct (List.disjoint_comm.1 h.unloaded)⟩

end Loader.Grows

theorem Runs.grows (h : Runs source w l r l') : ∃ new, l.Grows l' new := by
  induction h with
  | cycle | known | unread | none | faulty | missing => exact ⟨[], .refl _⟩
  | read hp _ _ ih =>
    obtain ⟨new, h⟩ := ih
    exact ⟨_, h.record hp⟩
  | broken _ _ _ ih =>
    obtain ⟨new, h⟩ := ih
    exact ⟨new, h.pop⟩
  | added _ _ _ ih =>
    obtain ⟨new, h⟩ := ih
    exact ⟨new, h.paths, h.distinct, h.unloaded, h.unread⟩
  | followed _ hp _ ihp ih =>
    obtain ⟨new₁, h₁⟩ := ihp
    obtain ⟨new₂, h₂⟩ := ih
    exact ⟨_, h₁.trans h₂ hp.stack_eq⟩
  | stuck _ _ ih => exact ih

end MappingSource

end IncludeAudit
