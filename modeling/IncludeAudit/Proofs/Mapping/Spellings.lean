import IncludeAudit.Engine.Standard
import IncludeAudit.Proofs.Files.Names
import IncludeAudit.Proofs.Mapping.Loading

/-!
# Mapping files under two spellings

A file that is referred to twice is loaded once if both references give it the same components. They
may give it different ones, and then it is loaded for each of these.

* `entriesOf_eq`: a file has the same entries under each spelling;
* `Walks.appliesOnce_iff`: what is applied more than once;
* `DepthFirst.plain`: plain spellings lead to plain paths only, and these have one spelling for a file;
* `load_appliesOnce_iff`: so it is told of every load that succeeds.
-/

namespace IncludeAudit

/-- Both paths lead to the same file, if each leads to one. -/
def Path.SameFile (p q : Path) : Prop :=
  FileStore.namesOf p = FileStore.namesOf q

instance (p q : Path) : Decidable (p.SameFile q) :=
  inferInstanceAs (Decidable (_ = _))

theorem DocumentFormat.ofPath_congr {p q : Path}
    (h : p.components.getLast? = q.components.getLast?) : ofPath p = ofPath q := by
  unfold ofPath Path.extension?
  rw [h]

namespace MappingSource

variable {source : MappingSource} {w : Task} {s s' : Loaded} {p q : Path} {seen new : List Path}
  {log : List (Path × MappingEntry)}

theorem exists_text_of_entriesOf {entries : List MappingEntry}
    (h : source.entriesOf p = .ok entries) :
    ∃ text, source.files.read p = .ok text ∧
      MappingEntry.parse? source.documents (.ofPath p) text = some entries := by
  unfold entriesOf at h
  split at h
  · cases h
  · rename_i text hread
    split at h
    · cases h
    · rename_i hparse
      cases h
      exact ⟨text, hread, hparse⟩

/-- A file has the same entries under each spelling. -/
theorem entriesOf_eq {es es' : List MappingEntry} (hp : source.entriesOf p = .ok es)
    (hq : source.entriesOf q = .ok es') (h : p.SameFile q) : es = es' := by
  obtain ⟨text, hread, hparse⟩ := exists_text_of_entriesOf hp
  obtain ⟨text', hread', hparse'⟩ := exists_text_of_entriesOf hq
  have htext := FileStore.text?_of_read hread
  rw [h, FileStore.text?_of_read hread'] at htext
  cases htext
  obtain ⟨n, hlast, hn⟩ := FileStore.getLast?_of_read hread
  obtain ⟨n', hlast', hn'⟩ := FileStore.getLast?_of_read hread'
  rw [h, hn'] at hn
  cases hn
  rw [DocumentFormat.ofPath_congr (hlast.trans hlast'.symm), hparse'] at hparse
  exact (Option.some.inj hparse).symm

theorem ownEntries_eq {es es' : List MappingEntry} (hp : source.entriesOf p = .ok es)
    (hq : source.entriesOf q = .ok es') (h : p.SameFile q) :
    source.ownEntries p = source.ownEntries q := by
  rw [ownEntries, ownEntries, hp, hq, entriesOf_eq hp hq h]

/-! ## What is applied of a file -/

/-- The paths under which the file was loaded to which a path leads. -/
def spellings (new : List Path) (p : Path) : List Path :=
  new.filter (·.SameFile p)

/-- The entries of a log that come from the file to which a path leads. -/
def entriesFrom (log : List (Path × MappingEntry)) (p : Path) : List MappingEntry :=
  (log.filter (·.1.SameFile p)).map (·.2)

/-- Of no file is more applied than its entries. -/
def AppliesOnce (source : MappingSource) (new : List Path) (log : List (Path × MappingEntry)) :
    Prop :=
  ∀ p ∈ new, (entriesFrom log p).Subperm (source.ownEntries p)

theorem mem_spellings : q ∈ spellings new p ↔ q ∈ new ∧ q.SameFile p := by
  simp [spellings]

theorem spellings_cons_of_same (h : q.SameFile p) :
    spellings (q :: new) p = q :: spellings new p :=
  List.filter_cons_of_pos (by simpa using h)

theorem spellings_cons_of_not_same (h : ¬ q.SameFile p) :
    spellings (q :: new) p = spellings new p :=
  List.filter_cons_of_neg (by simpa using h)

/-- A file was loaded under one spelling if its paths have the same components. -/
theorem length_spellings_le_one (hd : (Path.keys new).Nodup) (hp : p ∈ new) :
    (spellings new p).length ≤ 1 ↔ ∀ q ∈ new, q.SameFile p → q.components = p.components := by
  constructor
  · intro hlen q hq hsame
    have hqmem : q ∈ spellings new p := mem_spellings.2 ⟨hq, hsame⟩
    have hpmem : p ∈ spellings new p := mem_spellings.2 ⟨hp, rfl⟩
    match spellings new p, hlen, hqmem, hpmem with
    | [r], _, hqmem, hpmem => rw [List.mem_singleton.1 hqmem, List.mem_singleton.1 hpmem]
  · intro h
    have hall : Path.keys (spellings new p) =
        List.replicate (spellings new p).length p.components := by
      refine List.eq_replicate_iff.2 ⟨List.length_map _, fun k hk => ?_⟩
      obtain ⟨q, hq, rfl⟩ := List.mem_map.1 hk
      exact h q (mem_spellings.1 hq).1 (mem_spellings.1 hq).2
    have hnodup : (Path.keys (spellings new p)).Nodup :=
      hd.sublist (List.filter_sublist.map Path.components)
    rwa [hall, List.nodup_replicate] at hnodup

/-- The entries of a file are applied once for each spelling. -/
theorem entriesFrom_perm (hlog : log.Perm (new.flatMap source.own))
    (hsame : ∀ q ∈ new, q.SameFile p → source.ownEntries q = source.ownEntries p) :
    (entriesFrom log p).Perm ((spellings new p).flatMap fun _ => source.ownEntries p) := by
  refine ((hlog.filter _).map _).trans (.of_eq ?_)
  clear hlog
  induction new with
  | nil => rfl
  | cons q new ih =>
    have ih := ih fun r hr => hsame r (List.mem_cons_of_mem _ hr)
    rw [List.flatMap_cons, List.filter_append, List.map_append, ih]
    by_cases hq : q.SameFile p
    · have hown : ((source.own q).filter (·.1.SameFile p)).map (·.2) = source.ownEntries p := by
        rw [← hsame q List.mem_cons_self hq]
        simp [own, List.filter_map, hq, Function.comp_def]
      rw [hown, spellings_cons_of_same hq, List.flatMap_cons]
    · have hown : ((source.own q).filter (·.1.SameFile p)).map (·.2) = [] := by
        simp [own, List.filter_map, hq, Function.comp_def]
      rw [hown, spellings_cons_of_not_same hq, List.nil_append]

theorem subperm_flatMap_iff {paths : List Path} {entries : List MappingEntry} :
    (paths.flatMap fun _ => entries).Subperm entries ↔ paths.length ≤ 1 ∨ entries = [] := by
  constructor
  · intro h
    have hlen := h.length_le
    rw [List.length_flatMap, List.map_const', List.sum_replicate_nat] at hlen
    by_cases hnil : entries = []
    · exact .inr hnil
    · have hpos := List.length_pos_iff.2 hnil
      exact .inl (Nat.le_of_mul_le_mul_right (by rwa [Nat.one_mul]) hpos)
  · rintro (h | rfl)
    · match paths, h with
      | [], _ => exact List.nil_subperm
      | [_], _ => rw [List.flatMap_singleton]
    · simp

/-- What a load applies is applied once, unless a file that has entries was loaded under two
spellings. -/
theorem Walks.appliesOnce_iff (h : source.Walks (.load p) s s' new log)
    (hd : (Path.keys new).Nodup) :
    source.AppliesOnce new log ↔ ∀ p ∈ new, ∀ q ∈ new, q.SameFile p →
      q.components = p.components ∨ source.ownEntries p = [] := by
  have hlog : log.Perm (new.flatMap source.own) := h.order.perm
  have hread {q} (hq : q ∈ new) : ∃ entries, source.entriesOf q = .ok entries := by
    obtain ⟨before, after, rfl⟩ := List.append_of_mem hq
    obtain ⟨entries, he, -⟩ := h.order.postOrder.1 before q after rfl
    exact ⟨entries, he⟩
  refine forall₂_congr fun p hp => ?_
  have hsame : ∀ q ∈ new, q.SameFile p → source.ownEntries q = source.ownEntries p := by
    intro q hq hqp
    obtain ⟨es, hes⟩ := hread hq
    obtain ⟨es', hes'⟩ := hread hp
    exact ownEntries_eq hes hes' hqp
  rw [(entriesFrom_perm hlog hsame).subperm_right, subperm_flatMap_iff,
    length_spellings_le_one hd hp]
  by_cases hnil : source.ownEntries p = [] <;> simp [hnil]

/-! ## Plain spellings -/

/-- The search path and the references of the mapping files are plain. -/
structure HasPlainSpellings (source : MappingSource) : Prop where
  searchPath : ∀ dir ∈ source.searchPath, dir.Plain
  refs : ∀ p entries name, source.entriesOf p = .ok entries → .ref name ∈ entries →
    (Path.mk name).Plain

/-- A task that leads to plain paths. -/
def Task.Plain : Task → Prop
  | load p => p.Plain
  | add origin entries => origin.Plain ∧ ∀ name, .ref name ∈ entries → (Path.mk name).Plain

theorem HasPlainSpellings.names (h : source.HasPlainSpellings) {name : String} (hp : p.Plain)
    (hname : (Path.mk name).Plain) (hq : source.Names p name q) : q.Plain := by
  cases hq with
  | absolute => exact hname
  | @below before after dir _ hdirs =>
    have hdir : dir ∈ p.parent?.toList ++ source.searchPath := by
      rw [hdirs]
      exact List.mem_append_right _ List.mem_cons_self
    refine Path.Plain.join ?_ hname
    rcases List.mem_append.1 hdir with hdir | hdir
    · exact hp.parent? (Option.mem_toList.1 hdir)
    · exact h.searchPath dir hdir

theorem DepthFirst.plain (hs : source.HasPlainSpellings) (h : DepthFirst source w seen new log)
    (hw : w.Plain) : ∀ p ∈ new, p.Plain := by
  induction h with
  | again | none => exact fun p hp => absurd hp List.not_mem_nil
  | first _ he _ ih =>
    intro q hq
    rcases List.mem_append.1 hq with hq | hq
    · exact ih ⟨hw, fun name hname => hs.refs _ _ name he hname⟩ q hq
    · rw [List.mem_singleton.1 hq]
      exact hw
  | entry _ _ ih => exact ih ⟨hw.1, fun name hname => hw.2 name (List.mem_cons_of_mem _ hname)⟩
  | ref h _ _ ihp ih =>
    intro q hq
    rcases List.mem_append.1 hq with hq | hq
    · exact ihp (hs.names hw.1 (hw.2 _ List.mem_cons_self) h) q hq
    · exact ih ⟨hw.1, fun name hname => hw.2 name (List.mem_cons_of_mem _ hname)⟩ q hq

/-- Plain paths that lead to the same file have the same components. -/
theorem components_eq_of_sameFile (hp : p.Plain) (hq : q.Plain) (h : q.SameFile p) :
    q.components = p.components := by
  rw [FileStore.components_of_plain hq, FileStore.components_of_plain hp, h]

/-! ## Loads -/

theorem runs_of_load {stack : RefStack} (h : (source.loadWithin stack p s).1 = .ok ()) :
    Runs source (.load p) ⟨stack.paths, s⟩ .done
      ⟨stack.paths, (source.loadWithin stack p s).2⟩ := by
  obtain ⟨ending, hresult, hiff⟩ := runs_iff source stack p s
  cases ending with
  | done => exact (hiff _ _).2 ⟨rfl, rfl⟩
  | failed e trail =>
    rw [h] at hresult
    cases hresult

/-- A load that succeeds applies the entries of each file at most once, unless it loads a file that
has entries under paths with different components. With plain spellings it never does. -/
theorem load_appliesOnce_iff (h : (source.load p s).1 = .ok ()) :
    (∃ new log, source.Walks (.load p) s (source.load p s).2 new log) ∧
      ∀ new log, source.Walks (.load p) s (source.load p s).2 new log →
        (source.AppliesOnce new log ↔ ∀ p ∈ new, ∀ q ∈ new, q.SameFile p →
          q.components = p.components ∨ source.ownEntries p = []) ∧
        (source.HasPlainSpellings → p.Plain → source.AppliesOnce new log) := by
  have hrun := runs_of_load h
  refine ⟨hrun.walks, fun new log hwalk => ?_⟩
  obtain ⟨new', hgrows⟩ := hrun.grows
  obtain rfl : new' = new := List.append_cancel_left (hgrows.paths.symm.trans hwalk.paths)
  have hiff := hwalk.appliesOnce_iff hgrows.distinct
  refine ⟨hiff, fun hs hp => hiff.2 fun q hq r hr hsame => .inl ?_⟩
  have hplain := hwalk.order.plain hs hp
  exact components_eq_of_sameFile (hplain q hq) (hplain r hr) hsame

/-! ## Two references to one file -/

theorem load_of_runs (h : Runs source (.load p) ⟨[], s⟩ .done ⟨[], s'⟩) :
    source.load p s = (.ok (), s') := by
  obtain ⟨ending, hresult, hiff⟩ := runs_iff source .empty p s
  obtain ⟨rfl, hstate⟩ := (hiff _ _).1 h
  exact Prod.ext hresult.symm (Loader.mk.inj hstate).2.symm

/-- A mapping file that refers to another one twice, the second time as told. -/
def twoRefs (second : String) : MappingSource where
  files := .ofList [
    (⟨"main.imp"⟩, "- ref: d.imp\n- ref: " ++ second ++ "\n"),
    (⟨"d.imp"⟩, "- include: ['\"p.h\"', private, '\"q.h\"', public]\n")]
  documents := .standard
  patterns := .standard

/-- The entry of the other file. -/
def facade : MappingRow :=
  ⟨"\"p.h\"", .priv, "\"q.h\"", .pub⟩

def withFacade (source : MappingSource) (b : ProviderBuilder) : ProviderBuilder :=
  b.addMappingText source.patterns facade.source facade.visibility facade.target
    facade.targetVisibility

theorem addEntry_facade (b : ProviderBuilder) :
    source.addEntry b (.file facade) = .ok (source.withFacade b) := by
  have h : checkRow facade false = .ok () := by decide
  simp only [addEntry, h]
  rfl

theorem runs_facade {l : Loader} (h : l.Lacks p) (he : source.entriesOf p = .ok [.file facade]) :
    Runs source (.load p) l .done ((l.withBuilder (source.withFacade l.state.builder)).record p) :=
  .read h he (.added (fun _ he => nomatch he) (addEntry_facade _) .none)

/-- With the same spelling the second reference does nothing. -/
theorem load_oneSpelling : (twoRefs "d.imp").load ⟨"main.imp"⟩ {} =
    (.ok (), ⟨[⟨"d.imp"⟩, ⟨"main.imp"⟩], (twoRefs "d.imp").withFacade {}⟩) := by
  have hmain : (twoRefs "d.imp").entriesOf ⟨"main.imp"⟩ = .ok [.ref "d.imp", .ref "d.imp"] := by
    decide +kernel
  have hfind : (twoRefs "d.imp").findRef? ⟨"main.imp"⟩ "d.imp" = some ⟨"d.imp"⟩ := by
    decide +kernel
  have hd : (twoRefs "d.imp").entriesOf ⟨"d.imp"⟩ = .ok [.file facade] := by decide +kernel
  apply load_of_runs
  exact .read ⟨by decide, by decide⟩ hmain
    (.followed hfind (runs_facade ⟨by decide, by decide⟩ hd)
      (.followed hfind (.known (by decide) (by decide)) .none))

/-- With another spelling it loads the file again. -/
theorem load_twoSpellings : (twoRefs "./d.imp").load ⟨"main.imp"⟩ {} =
    (.ok (), ⟨[⟨"d.imp"⟩, ⟨"./d.imp"⟩, ⟨"main.imp"⟩],
      (twoRefs "./d.imp").withFacade ((twoRefs "./d.imp").withFacade {})⟩) := by
  have hmain : (twoRefs "./d.imp").entriesOf ⟨"main.imp"⟩ =
      .ok [.ref "d.imp", .ref "./d.imp"] := by decide +kernel
  have hd : (twoRefs "./d.imp").entriesOf ⟨"d.imp"⟩ = .ok [.file facade] := by decide +kernel
  have hd' : (twoRefs "./d.imp").entriesOf ⟨"./d.imp"⟩ = .ok [.file facade] := by decide +kernel
  apply load_of_runs
  exact .read ⟨by decide, by decide⟩ hmain
    (.followed (by decide +kernel) (runs_facade ⟨by decide, by decide⟩ hd)
      (.followed (by decide +kernel) (runs_facade ⟨by decide, by decide⟩ hd') .none))

theorem oneSpelling_appliesOnce :
    ((twoRefs "d.imp").load ⟨"main.imp"⟩ {}).1 = .ok () ∧
      ∃ new log, (twoRefs "d.imp").Walks (.load ⟨"main.imp"⟩) {}
          ((twoRefs "d.imp").load ⟨"main.imp"⟩ {}).2 new log ∧
        (twoRefs "d.imp").AppliesOnce new log := by
  have hok : ((twoRefs "d.imp").load ⟨"main.imp"⟩ {}).1 = .ok () := by rw [load_oneSpelling]
  obtain ⟨⟨new, log, hwalk⟩, hiff⟩ := load_appliesOnce_iff hok
  refine ⟨hok, new, log, hwalk, (hiff new log hwalk).1.2 ?_⟩
  have hnew : new = [⟨"d.imp"⟩, ⟨"main.imp"⟩] := by
    have hpaths := hwalk.paths
    rw [load_oneSpelling] at hpaths
    exact hpaths.symm
  rw [hnew]
  decide +kernel

theorem twoSpellings_appliesTwice :
    ((twoRefs "./d.imp").load ⟨"main.imp"⟩ {}).1 = .ok () ∧
      (((twoRefs "./d.imp").load ⟨"main.imp"⟩ {}).2.builder.map.edges.map fun e =>
        (e.source.file?, e.target)) =
          [(some (.ofText "p.h"), .ofText "q.h"), (some (.ofText "p.h"), .ofText "q.h")] ∧
      ∃ new log, (twoRefs "./d.imp").Walks (.load ⟨"main.imp"⟩) {}
          ((twoRefs "./d.imp").load ⟨"main.imp"⟩ {}).2 new log ∧
        ¬ (twoRefs "./d.imp").AppliesOnce new log := by
  have hok : ((twoRefs "./d.imp").load ⟨"main.imp"⟩ {}).1 = .ok () := by rw [load_twoSpellings]
  have hrun := runs_of_load hok
  obtain ⟨new, log, hwalk⟩ := hrun.walks
  refine ⟨hok, ?_, new, log, hwalk, fun honce => ?_⟩
  · rw [load_twoSpellings]
    decide +kernel
  · have hnew : new = [⟨"d.imp"⟩, ⟨"./d.imp"⟩, ⟨"main.imp"⟩] := by
      have hpaths : _ = [] ++ new := hwalk.paths
      rw [← List.nil_append new, ← hpaths]
      exact congrArg (·.2.paths) load_twoSpellings
    subst hnew
    have hcases := (hwalk.appliesOnce_iff (by decide)).1 honce ⟨"d.imp"⟩ (by decide) ⟨"./d.imp"⟩
      (by decide) (by decide)
    revert hcases
    decide +kernel

end MappingSource

end IncludeAudit
