import IncludeAudit.Proofs.Mapping.Entries
import IncludeAudit.Proofs.Mapping.Runs
import Mathlib.Data.List.Chain

/-!
# How the load of a mapping file fails

A failure comes with the files through which references led to it. Each of them was being read when
the error came up, so none has been loaded by then.

* `findRef?_eq_some`: the file that a reference names;
* `Runs.fails`: what the error tells is so; the trail begins with the file that was to be loaded,
  follows references, and ends with the file that the error is about; it comes back to a file exactly
  if the error says so;
* `Runs.unloaded_of_failed`: no file of the trail was loaded on the way.
-/

namespace IncludeAudit

/-- The file that an error is about. -/
def LoadError.file : LoadError → Path
  | unreadable p _ | malformed p | invalidEntry p _ | missingRef p _ | refCycle _ p => p

/-- An error that says that references come back to a file. -/
def LoadError.IsCycle (e : LoadError) : Prop :=
  ∃ origin, e = .refCycle origin e.file

namespace MappingSource

variable {source : MappingSource} {w : Task} {l l' : Loader} {e : LoadError} {p q : Path}
  {trail below : List Path}

/-! ## References -/

/-- The file that a reference names. An absolute name stands for itself. Any other is looked for in
the directory of the file that refers to it and then in those of the search path. -/
inductive Names (source : MappingSource) (origin : Path) (name : String) : Path → Prop where
  | absolute (h : (Path.mk name).isAbsolute = true) (isFile : source.files.isFile ⟨name⟩ = true) :
    Names source origin name ⟨name⟩
  | below {before after : List Path} {dir : Path} (h : (Path.mk name).isAbsolute = false)
    (dirs : origin.parent?.toList ++ source.searchPath = before ++ dir :: after)
    (isFile : source.files.isFile (dir.join name) = true)
    (first : ∀ d ∈ before, source.files.isFile (d.join name) = false) :
    Names source origin name (dir.join name)

theorem findBelow?_eq_some {name : String} {dirs : List Path} :
    source.findBelow? name dirs = some q ↔ ∃ before dir after, dirs = before ++ dir :: after ∧
      source.files.isFile (dir.join name) = true ∧
      (∀ d ∈ before, source.files.isFile (d.join name) = false) ∧ dir.join name = q := by
  simp only [findBelow?, List.find?_map, Option.map_eq_some_iff, List.find?_eq_some_iff_append,
    Function.comp_apply, Bool.not_eq_true']
  constructor
  · rintro ⟨dir, ⟨hfile, before, after, hdirs, hfirst⟩, hq⟩
    exact ⟨before, dir, after, hdirs, hfile, hfirst, hq⟩
  · rintro ⟨before, dir, after, hdirs, hfile, hfirst, hq⟩
    exact ⟨dir, ⟨hfile, before, after, hdirs, hfirst⟩, hq⟩

theorem findRef?_eq_some {name : String} :
    source.findRef? p name = some q ↔ source.Names p name q := by
  rw [findRef?]
  split
  · rename_i habsolute
    rw [Option.ite_none_right_eq_some, Option.some.injEq]
    constructor
    · rintro ⟨hfile, rfl⟩
      exact .absolute habsolute hfile
    · intro h
      cases h with
      | absolute _ hfile => exact ⟨hfile, rfl⟩
      | below h => exact absurd habsolute (Bool.eq_false_iff.1 h)
  · rename_i hrelative
    rw [findBelow?_eq_some]
    constructor
    · rintro ⟨before, dir, after, hdirs, hfile, hfirst, rfl⟩
      exact .below (Bool.eq_false_iff.2 hrelative) hdirs hfile hfirst
    · intro h
      cases h with
      | absolute h => exact absurd h hrelative
      | below _ hdirs hfile hfirst => exact ⟨_, _, _, hdirs, hfile, hfirst, rfl⟩

theorem findRef?_eq_none {name : String} :
    source.findRef? p name = none ↔ ∀ q, ¬ source.Names p name q := by
  rw [Option.eq_none_iff_forall_ne_some]
  exact forall_congr' fun q => not_congr findRef?_eq_some

theorem Names.unique {name : String} {q' : Path} (h : source.Names p name q)
    (h' : source.Names p name q') : q = q' :=
  Option.some.inj ((findRef?_eq_some.2 h).symm.trans (findRef?_eq_some.2 h'))

/-- A mapping file has a reference that names another file. -/
def Refers (source : MappingSource) (p q : Path) : Prop :=
  ∃ entries name, source.entriesOf p = .ok entries ∧ .ref name ∈ entries ∧ source.Names p name q

/-! ## Errors -/

/-- What an error tells is so. That a reference leads back is told by the trail. -/
inductive Causes (source : MappingSource) : LoadError → Prop where
  | unreadable {p : Path} {cause : FileError} (h : source.files.read p = .error cause) :
    Causes source (.unreadable p cause)
  | malformed {p : Path} {text : String} (h : source.files.read p = .ok text)
    (hparse : MappingEntry.parse? source.documents (.ofPath p) text = none) :
    Causes source (.malformed p)
  | invalidEntry {p : Path} {entries : List MappingEntry} {entry : MappingEntry}
    {fault : EntryFault} (h : source.entriesOf p = .ok entries) (hentry : entry ∈ entries)
    (hfault : entry.Faulty fault) : Causes source (.invalidEntry p fault)
  | missingRef {p : Path} {entries : List MappingEntry} {name : String}
    (h : source.entriesOf p = .ok entries) (hentry : .ref name ∈ entries)
    (hfind : ∀ q, ¬ source.Names p name q) : Causes source (.missingRef p name)
  | refCycle {p q : Path} : Causes source (.refCycle p q)

theorem causes_of_entriesOf (h : source.entriesOf p = .error e) : source.Causes e := by
  unfold entriesOf at h
  split at h
  · rename_i hread
    cases h
    exact .unreadable hread
  · rename_i hread
    split at h
    · rename_i hparse
      cases h
      exact .malformed hread hparse
    · cases h

theorem file_of_entriesOf (h : source.entriesOf p = .error e) : e.file = p := by
  unfold entriesOf at h
  split at h
  · cases h; rfl
  · split at h
    · cases h; rfl
    · cases h

theorem not_isCycle_of_entriesOf (h : source.entriesOf p = .error e) : ¬ e.IsCycle := by
  rintro ⟨origin, he⟩
  rw [he] at h
  unfold entriesOf at h
  split at h
  · cases h
  · split at h <;> cases h

/-- An error with the files through which references led from a file to it, the last one first and
those below it last. -/
structure Fails (source : MappingSource) (p : Path) (below : List Path) (e : LoadError)
    (trail : List Path) : Prop where
  cause : source.Causes e
  way : ∃ more, trail = more ++ p :: below ∧ (more ++ [p]).IsChain fun q r => source.Refers r q
  last : trail.head? = some e.file
  closes : e.IsCycle ↔ e.file.components ∈ Path.keys trail.tail

/-- An error about the file itself that is no cycle. -/
theorem Fails.here (hcause : source.Causes e) (hfile : e.file = p) (hcycle : ¬ e.IsCycle)
    (hp : p.components ∉ Path.keys below) : source.Fails p below e (p :: below) where
  cause := hcause
  way := ⟨[], rfl, List.isChain_singleton p⟩
  last := congrArg some hfile.symm
  closes := iff_of_false hcycle (by rwa [hfile])

/-- An error to which a reference led. -/
theorem Fails.through (h : source.Fails q (p :: below) e trail) (hq : source.Refers p q) :
    source.Fails p below e trail where
  cause := h.cause
  way := by
    obtain ⟨more, rfl, hchain⟩ := h.way
    refine ⟨more ++ [q], by simp, ?_⟩
    rw [List.append_assoc]
    exact List.isChain_split.2 ⟨hchain, .cons_cons hq (.singleton p)⟩
  last := h.last
  closes := h.closes

/-- A task with the file that it is about and the files that are being read below it. The entries
to add are the last ones of the file. -/
inductive Task.At (source : MappingSource) : Task → List Path → Path → List Path → Prop where
  | load {p : Path} {below : List Path} : Task.At source (.load p) below p below
  | add {p : Path} {below : List Path} {entries all : List MappingEntry}
    (h : source.entriesOf p = .ok all) (hs : entries <:+ all)
    (hp : p.components ∉ Path.keys below) : Task.At source (.add p entries) (p :: below) p below

theorem Task.At.tail {entry : MappingEntry} {entries : List MappingEntry} {origin : Path}
    {stack : List Path} (h : At source (.add origin (entry :: entries)) stack p below) :
    At source (.add origin entries) stack p below := by
  cases h with
  | add h hs hp => exact .add h ((List.suffix_cons _ _).trans hs) hp

theorem Task.At.fails_here {entries : List MappingEntry} {origin : Path} {stack : List Path}
    (h : At source (.add origin entries) stack p below)
    (hcause : ∀ all, source.entriesOf origin = .ok all → entries <:+ all → source.Causes e)
    (hfile : e.file = origin) (hcycle : ¬ e.IsCycle) : source.Fails p below e stack := by
  cases h with
  | add h hs hp => exact .here (hcause _ h hs) hfile hcycle hp

theorem Task.At.refers {name : String} {entries : List MappingEntry} {origin : Path}
    {stack : List Path} (h : At source (.add origin (.ref name :: entries)) stack p below)
    (hq : source.Names origin name q) : source.Refers p q ∧ stack = p :: below := by
  cases h with
  | add h hs _ => exact ⟨⟨_, name, h, hs.subset List.mem_cons_self, hq⟩, rfl⟩

/-- The trail of a failure. The induction is on the run: a reference adds its file to the trail of
what it led to. -/
theorem Runs.fails (h : Runs source w l (.failed e trail) l') (hw : w.At source l.stack p below) :
    source.Fails p below e trail := by
  generalize hr : Ending.failed e trail = r at h
  induction h generalizing p below with
  | cycle h =>
    cases hr
    cases hw
    exact ⟨.refCycle, ⟨[], rfl, List.isChain_singleton _⟩, rfl, iff_of_true ⟨_, rfl⟩ h⟩
  | known | read | none => cases hr
  | unread h he =>
    cases hr
    cases hw
    exact .here (causes_of_entriesOf he) (file_of_entriesOf he) (not_isCycle_of_entriesOf he)
      h.unread
  | broken h he _ ih =>
    cases hw
    exact ih (.add he List.suffix_rfl h.unread) hr
  | added _ _ _ ih => exact ih hw.tail hr
  | faulty h ha =>
    cases hr
    exact hw.fails_here (fun _ h hs => .invalidEntry h (hs.subset List.mem_cons_self)
      (faulty_of_addEntry ha)) rfl fun ⟨_, he⟩ => nomatch he
  | missing hfind =>
    cases hr
    exact hw.fails_here (fun _ h hs => .missingRef h (hs.subset List.mem_cons_self)
      (findRef?_eq_none.1 hfind)) rfl fun ⟨_, he⟩ => nomatch he
  | followed _ hp _ _ ih =>
    refine ih ?_ hr
    rw [hp.stack_eq]
    exact hw.tail
  | stuck h _ ih =>
    obtain ⟨hq, hstack⟩ := hw.refers (findRef?_eq_some.1 h)
    have hfails := ih .load hr
    rw [hstack] at hfails
    exact hfails.through hq

/-- A file of the trail was being read from the beginning or was never loaded. -/
theorem Runs.trail_cases (h : Runs source w l (.failed e trail) l') {k : List PathPart}
    (hk : k ∈ Path.keys trail) : k ∈ Path.keys l.stack ∨ k ∉ Path.keys l'.state.paths := by
  generalize hr : Ending.failed e trail = r at h
  induction h with
  | cycle h =>
    cases hr
    rcases List.mem_cons.1 hk with rfl | hk
    · exact .inl h
    · exact .inl hk
  | known | read | none => cases hr
  | unread h =>
    cases hr
    rcases List.mem_cons.1 hk with rfl | hk
    · exact .inr h.unloaded
    · exact .inl hk
  | broken h _ hrun ih =>
    rcases ih hr with hs | hn
    · rcases List.mem_cons.1 hs with rfl | hs
      · obtain ⟨new, hgrows⟩ := hrun.grows
        exact .inr (hgrows.unloaded_self h)
      · exact .inl hs
    · exact .inr hn
  | added _ _ _ ih => exact ih hr
  | faulty | missing =>
    cases hr
    exact .inl hk
  | followed _ hp _ _ ih =>
    rw [← hp.stack_eq]
    exact ih hr
  | stuck _ _ ih => exact ih hr

/-- No file of the trail was loaded on the way to the failure. -/
theorem Runs.unloaded_of_failed (h : Runs source w l (.failed e trail) l') {k : List PathPart}
    (hk : k ∈ Path.keys trail) (hmem : k ∈ Path.keys l'.state.paths) :
    k ∈ Path.keys l.state.paths := by
  obtain ⟨new, hgrows⟩ := h.grows
  rcases h.trail_cases hk with hs | hn
  · rw [hgrows.paths, Path.keys_append] at hmem
    exact (List.mem_append.1 hmem).resolve_right fun hnew => hgrows.unread hnew hs
  · exact absurd hmem hn

end MappingSource

end IncludeAudit
