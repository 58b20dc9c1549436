import IncludeAudit.Proofs.Ordered.Map
import IncludeAudit.Proofs.Session.CyclePolicy
import Mathlib.Data.Set.Card

/-!
# Export regions

The region of a file is open if the last marker of the file begins one, whatever other files have in
between (`RegionOpen`). A file re-exports what it includes with the pragma or while its region is
open (`Reexports`). A marker that begins a region inside an open one, or that ends none, changes
nothing and is reported, as is a region that is never ended.

* `KnowsRegions.take`, `knowsRegions_foldl`: what one fact and several tell of regions;
* `length_withCode_allDiagnostics`: what is reported of them;
* `exportRegions_afterFacts`: a session after facts.
-/

namespace IncludeAudit

variable {es before : List Event} {e : Event} {f g header : FileName} {begins : Bool}

/-! ## Regions of facts -/

namespace Event

/-- The file of a marker and whether it begins a region. -/
def exportMarker? : Event → Option (FileName × Bool)
  | .pragma ⟨f, _, .beginExports⟩ => some (f, true)
  | .pragma ⟨f, _, .endExports⟩ => some (f, false)
  | _ => none

end Event

/-- The last marker of the file begins a region. -/
def RegionOpen (es : List Event) (f : FileName) : Prop :=
  ((es.filterMap (·.exportMarker?)).filter (·.1 = f)).getLast? = some (f, true)

instance (es : List Event) (f : FileName) : Decidable (RegionOpen es f) :=
  inferInstanceAs (Decidable (_ = _))

/-- The file includes a header with the export pragma, or while its region is open. -/
def Reexports (es : List Event) (f header : FileName) : Prop :=
  ∃ before d, before ++ [.directive d] <+: es ∧ d.includer = f ∧ d.included = header ∧
    (d.pragma = some .reexport ∨ RegionOpen before f)

/-- The number of facts of which something holds, given the facts before. -/
def countFacts (p : List Event → Event → Bool) (es : List Event) : Nat :=
  (List.range es.length).countP fun i => es[i]?.any (p (es.take i))

/-- The number of markers that begin a region inside an open one. -/
def nestedBegins : List Event → Nat :=
  countFacts fun before e => e.exportMarker?.any fun m => m.2 && decide (RegionOpen before m.1)

/-- The number of markers that end a region that is not open. -/
def unmatchedEnds : List Event → Nat :=
  countFacts fun before e => e.exportMarker?.any fun m => !m.2 && !decide (RegionOpen before m.1)

theorem not_regionOpen_nil : ¬ RegionOpen [] f :=
  nofun

/-- Only a marker of the file opens or closes its region. -/
theorem regionOpen_concat_of_marker (hm : e.exportMarker? = some (g, begins)) :
    RegionOpen (es ++ [e]) f ↔ if f = g then begins = true else RegionOpen es f := by
  simp only [RegionOpen, List.filterMap_append, List.filterMap_cons, hm, List.filterMap_nil,
    List.filter_append]
  by_cases hf : f = g
  · subst hf
    simp
  · have hother : ([(g, begins)].filter fun m => m.1 = f) = [] := by simp [Ne.symm hf]
    rw [hother, List.append_nil, if_neg hf]

theorem regionOpen_concat_of_none (hm : e.exportMarker? = none) :
    RegionOpen (es ++ [e]) f ↔ RegionOpen es f := by
  simp [RegionOpen, hm]

theorem not_reexports_nil : ¬ Reexports [] f header := by
  rintro ⟨before, d, hprefix, -⟩
  simp at hprefix

theorem reexports_concat : Reexports (es ++ [e]) f header ↔ Reexports es f header ∨
    ∃ d, e = .directive d ∧ d.includer = f ∧ d.included = header ∧
      (d.pragma = some .reexport ∨ RegionOpen es f) := by
  constructor
  · rintro ⟨before, d, hprefix, hd⟩
    rcases List.prefix_concat_iff.1 hprefix with heq | hprefix
    · obtain ⟨rfl, hlast⟩ := List.append_inj' heq rfl
      exact .inr ⟨d, (List.head_eq_of_cons_eq hlast).symm, hd⟩
    · exact .inl ⟨before, d, hprefix, hd⟩
  · rintro (⟨before, d, hprefix, hd⟩ | ⟨d, rfl, hd⟩)
    · exact ⟨before, d, hprefix.trans (List.prefix_append es [e]), hd⟩
    · exact ⟨es, d, List.prefix_rfl, hd⟩

theorem reexports_concat_of_none (hd : e.directive? = none) :
    Reexports (es ++ [e]) f header ↔ Reexports es f header := by
  refine reexports_concat.trans (or_iff_left ?_)
  rintro ⟨d, rfl, -⟩
  cases hd

theorem countFacts_concat (p : List Event → Event → Bool) (es : List Event) (e : Event) :
    countFacts p (es ++ [e]) = countFacts p es + (p es e).toNat := by
  have hbefore : (List.range es.length).countP
      (fun i => (es ++ [e])[i]?.any (p ((es ++ [e]).take i))) = countFacts p es := by
    refine List.countP_congr fun i hi => ?_
    have hlt : i < es.length := List.mem_range.1 hi
    rw [List.getElem?_append_left hlt, List.take_append_of_le_length (Nat.le_of_lt hlt)]
  have hlast : ((es ++ [e])[es.length]?.any (p ((es ++ [e]).take es.length))) = p es e := by
    simp
  rw [countFacts, List.length_append, List.length_singleton, List.range_succ, List.countP_append,
    hbefore, List.countP_singleton, hlast]
  cases p es e <;> rfl

/-! ## Stores of exports -/

namespace Overlay

theorem mem_exportersOf_addExport {o : Overlay} {exported exporter : FileName} :
    f ∈ (o.addExport exported exporter).exportersOf header ↔
      f ∈ o.exportersOf header ∨ (f = exporter ∧ header = exported ∧ header ≠ f) := by
  unfold addExport
  split
  · rename_i hself
    subst hself
    refine (or_iff_left ?_).symm
    rintro ⟨rfl, rfl, hne⟩
    exact hne rfl
  · rename_i hne
    rw [exportersOf, OrderedMap.mem_addTo, ← exportersOf]
    refine or_congr_right ⟨?_, fun h => ⟨h.2.1, h.1⟩⟩
    rintro ⟨rfl, rfl⟩
    exact ⟨rfl, rfl, hne⟩

/-- The conventions on paths are no re-exports. -/
theorem exportersOf_observeInclude (o : Overlay) (includer included : FileName) :
    (o.observeInclude includer included).exportersOf header = o.exportersOf header := by
  have hinternal : (o.observeInternal includer included).exporters = o.exporters := by
    unfold observeInternal
    split
    · split <;> rfl
    · rfl
  have hmachine : (o.observeInclude includer included).exporters =
      (o.observeInternal includer included).exporters := by
    unfold observeInclude observeMachine
    split <;> rfl
  rw [exportersOf, hmachine, hinternal, exportersOf]

theorem exportersOf_addFriend {o o' : Overlay} {engine : PatternEngine} {pattern : String}
    (h : o.addFriend engine f pattern = .ok o') : o'.exportersOf header = o.exportersOf header := by
  unfold addFriend at h
  split at h <;> cases h
  rfl

end Overlay

theorem pragmasAfter_exported (d : IncludeDirective) (p : FilePragmas) :
    (FileRecord.pragmasAfter d p).exported =
      if d.pragma = some .reexport then p.exported.insert d.included else p.exported := by
  unfold FileRecord.pragmasAfter
  split <;> simp_all

/-! ## What a session knows of regions -/

open DiagnosticLog (withCode withCode_append withCode_eq_self withCode_eq_nil)

namespace TextView

variable {x x' : TextView} {d : IncludeDirective}

/-- The view knows which regions are open after facts, what was re-exported, and how many markers
were out of place. -/
structure KnowsRegions (es : List Event) (x : TextView) : Prop where
  isOpen : ∀ f, x.openExports.contains f = true ↔ RegionOpen es f
  exported : ∀ f header, header ∈ (x.pragmas f).exported ↔ Reexports es f header
  exporters : ∀ f header, f ∈ x.overlay.exportersOf header ↔ Reexports es f header ∧ header ≠ f
  faults : (x.log.withCode "W0006").length = nestedBegins es + unmatchedEnds es

/-! ## One fact -/

theorem isReexport_or_open : (d.isReexport || x.openExports.contains d.includer) = true ↔
    d.pragma = some .reexport ∨ x.openExports.contains d.includer = true := by
  simp [IncludeDirective.isReexport]

theorem openExports_recordInclude (x : TextView) (d : IncludeDirective) :
    (x.recordInclude d).openExports = x.openExports ∧ (x.recordInclude d).log = x.log := by
  unfold recordInclude
  dsimp only
  split <;> exact ⟨rfl, rfl⟩

theorem mem_exported_recordInclude :
    header ∈ ((x.recordInclude d).pragmas f).exported ↔ header ∈ (x.pragmas f).exported ∨
      (d.includer = f ∧ d.included = header ∧
        (d.pragma = some .reexport ∨ x.openExports.contains d.includer = true)) := by
  have hexported : header ∈ ((x.recordInclude d).pragmas f).exported ↔
      if f = d.includer then
        header ∈ (FileRecord.pragmasAfter d (x.pragmas d.includer)).exported ∨
          (header = d.included ∧
            (d.pragma = some .reexport ∨ x.openExports.contains d.includer = true))
      else header ∈ (x.pragmas f).exported := by
    unfold recordInclude
    dsimp only
    rw [← isReexport_or_open]
    cases d.isReexport || x.openExports.contains d.includer <;>
      by_cases hf : f = d.includer <;> simp [setPragmas, hf, OrderedSet.mem_insert]
  rw [hexported, pragmasAfter_exported]
  by_cases hf : f = d.includer
  · subst hf
    by_cases hp : d.pragma = some .reexport <;>
      simp [hp, OrderedSet.mem_insert, @eq_comm _ header d.included]
  · rw [if_neg hf]
    exact (or_iff_left fun h => hf h.1.symm).symm

theorem mem_exportersOf_recordInclude :
    f ∈ (x.recordInclude d).overlay.exportersOf header ↔ f ∈ x.overlay.exportersOf header ∨
      (d.includer = f ∧ d.included = header ∧
        (d.pragma = some .reexport ∨ x.openExports.contains d.includer = true)) ∧ header ≠ f := by
  unfold recordInclude
  dsimp only
  rw [← isReexport_or_open]
  cases hagain : d.isReexport || x.openExports.contains d.includer with
  | true =>
    rw [if_pos rfl, Overlay.mem_exportersOf_addExport, Overlay.exportersOf_observeInclude]
    simp [and_assoc, eq_comm]
  | false =>
    rw [if_neg Bool.false_ne_true, Overlay.exportersOf_observeInclude]
    simp

namespace KnowsRegions

/-- A fact that neither includes nor marks changes nothing of what is known. -/
theorem keep (h : KnowsRegions es x) (hd : e.directive? = none) (hm : e.exportMarker? = none)
    (hopen : x'.openExports = x.openExports)
    (hexported : ∀ f, (x'.pragmas f).exported = (x.pragmas f).exported)
    (hexporters : ∀ header, x'.overlay.exportersOf header = x.overlay.exportersOf header)
    (hlog : x'.log.withCode "W0006" = x.log.withCode "W0006") : KnowsRegions (es ++ [e]) x' := by
  refine ⟨fun f => ?_, fun f header => ?_, fun f header => ?_, ?_⟩
  · rw [hopen, regionOpen_concat_of_none hm, h.isOpen]
  · rw [hexported, reexports_concat_of_none hd, h.exported]
  · rw [hexporters, reexports_concat_of_none hd, h.exporters]
  · rw [hlog, h.faults, nestedBegins, unmatchedEnds, countFacts_concat, countFacts_concat, hm]
    rfl

theorem directive (h : KnowsRegions es x) (d : IncludeDirective) :
    KnowsRegions (es ++ [.directive d]) (x.recordInclude d) := by
  obtain ⟨hopen, hlog⟩ := openExports_recordInclude x d
  have hreexports (f header : FileName) : Reexports (es ++ [.directive d]) f header ↔
      Reexports es f header ∨ (d.includer = f ∧ d.included = header ∧
        (d.pragma = some .reexport ∨ x.openExports.contains d.includer = true)) := by
    rw [reexports_concat, h.isOpen]
    refine or_congr_right ⟨?_, ?_⟩
    · rintro ⟨_, ⟨⟩, rfl, hd⟩
      exact ⟨rfl, hd⟩
    · rintro ⟨rfl, hd⟩
      exact ⟨d, rfl, rfl, hd⟩
  refine ⟨fun f => ?_, fun f header => ?_, fun f header => ?_, ?_⟩
  · rw [hopen, regionOpen_concat_of_none rfl, h.isOpen]
  · rw [mem_exported_recordInclude, hreexports, h.exported]
  · rw [mem_exportersOf_recordInclude, hreexports, h.exporters, or_and_right]
  · rw [hlog, h.faults, nestedBegins, unmatchedEnds, countFacts_concat, countFacts_concat]
    rfl

/-- A marker changes nothing but the region of its file, and it is reported if it is out of place.
-/
theorem marker (h : KnowsRegions es x) (hm : e.exportMarker? = some (g, begins))
    (hd : e.directive? = none)
    (hopen : ∀ f, x'.openExports.contains f = true ↔
      if f = g then begins = true else x.openExports.contains f = true)
    (hpragmas : x'.pragmas = x.pragmas) (hoverlay : x'.overlay = x.overlay)
    (hlog : (x'.log.withCode "W0006").length = (x.log.withCode "W0006").length +
      (begins == x.openExports.contains g).toNat) : KnowsRegions (es ++ [e]) x' := by
  refine ⟨fun f => ?_, fun f header => ?_, fun f header => ?_, ?_⟩
  · rw [hopen, regionOpen_concat_of_marker hm, h.isOpen]
  · rw [hpragmas, reexports_concat_of_none hd, h.exported]
  · rw [hoverlay, reexports_concat_of_none hd, h.exporters]
  · have hdecide : decide (RegionOpen es g) = x.openExports.contains g := by
      rw [Bool.eq_iff_iff, decide_eq_true_eq, h.isOpen]
    rw [hlog, h.faults, nestedBegins, unmatchedEnds, countFacts_concat, countFacts_concat, hm]
    simp only [Option.any_some, hdecide]
    cases begins <;> cases x.openExports.contains g <;> simp <;> omega

theorem pragma (h : KnowsRegions es x) (p : PragmaNote) :
    KnowsRegions (es ++ [.pragma p]) (x.recordPragma p.file p.line p.pragma) := by
  obtain ⟨f, line, pragma⟩ := p
  have hpragmas (o : Overlay) {q : FilePragmas} (hq : q.exported = (x.pragmas f).exported)
      (g : FileName) :
      (({ x.setPragmas f q with overlay := o } : TextView).pragmas g).exported =
        (x.pragmas g).exported := by
    simp only [setPragmas]
    split
    · rename_i hg
      rw [hg, hq]
    · rfl
  unfold recordPragma
  cases pragma with
  | privateFile | noInclude | noForwardDeclare =>
    exact h.keep rfl rfl rfl (hpragmas _ rfl) (fun _ => rfl) rfl
  | alwaysKeep => exact h.keep rfl rfl rfl (fun _ => rfl) (fun _ => rfl) rfl
  | friend pattern =>
    dsimp only
    split
    · rename_i o ho
      exact h.keep rfl rfl rfl (fun _ => rfl) (fun _ => Overlay.exportersOf_addFriend ho) rfl
    · refine h.keep rfl rfl rfl (fun _ => rfl) (fun _ => rfl) ?_
      simp [report, withCode, Diagnostic.unresolvablePattern]
  | beginExports =>
    dsimp only
    cases hopen : x.openExports.contains f with
    | true =>
      refine h.marker rfl rfl (fun g => ?_) rfl rfl ?_
      · by_cases hg : g = f <;> simp [report, hg, hopen]
      · rw [hopen]
        simp [report, withCode, Diagnostic.unbalancedExports, Diagnostic.warningAt]
    | false =>
      refine h.marker rfl rfl (fun g => ?_) rfl rfl ?_
      · by_cases hg : g = f <;> simp [OrderedMap.set, OrderedMap.contains_upsert, hg]
      · rw [hopen]
        rfl
  | endExports =>
    dsimp only
    cases hopen : x.openExports.contains f with
    | true =>
      refine h.marker rfl rfl (fun g => ?_) rfl rfl ?_
      · by_cases hg : g = f <;> simp [OrderedMap.contains_erase, hg]
      · rw [hopen]
        rfl
    | false =>
      refine h.marker rfl rfl (fun g => ?_) rfl rfl ?_
      · by_cases hg : g = f <;> simp [report, hg, hopen]
      · rw [hopen]
        simp [report, withCode, Diagnostic.unbalancedExports, Diagnostic.warningAt]

theorem take (h : KnowsRegions es x) (e : Event) : KnowsRegions (es ++ [e]) (x.take e) := by
  cases e with
  | directive d => exact h.directive d
  | pragma p => exact h.pragma p
  | _ => exact h.keep rfl rfl rfl (fun _ => rfl) (fun _ => rfl) rfl

/-- The induction is on the facts; those before are carried along. -/
theorem foldl (h : KnowsRegions before x) (es : List Event) :
    KnowsRegions (before ++ es) (es.foldl TextView.take x) := by
  induction es generalizing before x with
  | nil => rwa [List.append_nil]
  | cons e es ih =>
    have hrest := ih (h.take e)
    rwa [List.append_assoc] at hrest

/-- The regions that are open are those that the view lists. -/
theorem ncard_regionOpen (h : KnowsRegions es x) :
    {f | RegionOpen es f}.ncard = x.openExports.size := by
  have hkeys : {f | RegionOpen es f} = ↑x.openExports.keys.toFinset := by
    ext f
    rw [Finset.mem_coe, List.mem_toFinset, Set.mem_ofPred_eq, ← h.isOpen,
      OrderedMap.contains_eq_true]
  have hnodup : x.openExports.keys.Nodup := x.openExports.nodup
  rw [hkeys, Set.ncard_coe_finset, List.toFinset_card_of_nodup hnodup, OrderedMap.keys,
    List.length_map, OrderedMap.size]

end KnowsRegions

end TextView

/-! ## The whole session -/

namespace Session

variable {s t : Session} {rep : SessionReport}

theorem knowsRegions_start (env : Environment) (main : FileName) :
    TextView.KnowsRegions [] (start env main).text where
  isOpen f := iff_of_false nofun not_regionOpen_nil
  exported f header := by
    simp only [text, recordOf_start]
    exact iff_of_false OrderedSet.not_mem_empty not_reexports_nil
  exporters f header := iff_of_false List.not_mem_nil fun h => not_reexports_nil h.1
  faults := by
    have hnone : (start env main).log.withCode "W0006" = [] := withCode_eq_nil.2 fun d hd => by
      rw [code_of_mem_start env main d hd]
      decide
    exact congrArg List.length hnone

theorem knowsRegions_afterFacts (env : Environment) (main : FileName) (es : List Event) :
    TextView.KnowsRegions es ((start env main).afterFacts es).text := by
  rw [text_afterFacts (open_start env main)]
  exact (knowsRegions_start env main).foldl es

/-- A session that is finished reports the regions that are still open. -/
theorem length_withCode_closed (s : Session) :
    (s.closed.log.withCode "W0006").length =
      (s.log.withCode "W0006").length + s.openExports.size := by
  let left : DiagnosticLog := s.openExports.entries.map fun p =>
    .unbalancedExports p.1 p.2 "begin_exports without end_exports"
  have hclosed : s.closed.log = s.log ++ left := rfl
  have hleft : left.withCode "W0006" = left := DiagnosticLog.withCode_eq_self fun d hd => by
    obtain ⟨p, -, rfl⟩ := List.mem_map.1 hd
    rfl
  rw [hclosed, withCode_append, List.length_append, hleft, List.length_map, OrderedMap.size]

theorem withCode_region_cycleLog (g : IncludeGraph) (fs : List FileName) :
    withCode (fs.flatMap (cycleLog g)) "W0006" = [] := by
  refine withCode_eq_nil.2 fun d hd => ?_
  obtain ⟨f, -, hd⟩ := List.mem_flatMap.1 hd
  rw [code_of_mem_cycleLog d hd]
  decide

/-- What a session says of regions, if it has reports. -/
theorem length_withCode_allDiagnostics {mainReport : FileReport}
    {associated extra : List FileReport} (hends : EndsAll s.closed s.reportOrder none t)
    (hlog : rep.diagnostics = t.log) (hreports : Reports s rep.files mainReport associated extra) :
    (rep.allDiagnostics.withCode "W0006").length =
      (s.log.withCode "W0006").length + s.openExports.size := by
  rw [SessionReport.allDiagnostics, withCode_append, hreports.withCode_eq_nil (by decide),
    List.append_nil, hlog, hends.log, withCode_append, withCode_region_cycleLog, List.append_nil,
    length_withCode_closed]

/-- After facts, a file exports the headers that it includes with the pragma or in an open region of
its own, and these have it among their exporters, itself excepted. The diagnostics about regions
number the markers out of place and the regions left open. -/
theorem exportRegions_afterFacts (env : Environment) (main : FileName) (es : List Event) :
    (∀ f header, header ∈ (((start env main).afterFacts es).recordOf f).pragmas.exported ↔
      Reexports es f header) ∧
    (∀ f header, f ∈ ((start env main).afterFacts es).overlay.exportersOf header ↔
      header ∈ (((start env main).afterFacts es).recordOf f).pragmas.exported ∧ header ≠ f) ∧
    match ((start env main).afterFacts es).finish.1 with
    | .ok rep => (rep.allDiagnostics.withCode "W0006").length =
        nestedBegins es + unmatchedEnds es + {f | RegionOpen es f}.ncard
    | .error _ => True := by
  obtain ⟨taken, hrec, -, -⟩ := exists_recorded env main es
  have hknows := knowsRegions_afterFacts env main es
  generalize (start env main).afterFacts es = s at hrec hknows
  have hexported (f header : FileName) :
      header ∈ (s.recordOf f).pragmas.exported ↔ Reexports es f header := hknows.exported f header
  refine ⟨hexported, fun f header => ?_, ?_⟩
  · rw [hexported]
    exact hknows.exporters f header
  · obtain ⟨t, hends, -, -, hlog⟩ := finish_ends hrec.finished
    split
    · rename_i rep hrep
      rw [hrep] at hends
      obtain ⟨-, mainReport, associated, extra, hreports⟩ := finish_ok hrep hrec.resolved
      have hfaults : (s.log.withCode "W0006").length = nestedBegins es + unmatchedEnds es :=
        hknows.faults
      have hsize : s.openExports.size = {f | RegionOpen es f}.ncard := hknows.ncard_regionOpen.symm
      rw [length_withCode_allDiagnostics hends (hlog rep hrep) hreports, hfaults, hsize]
    · trivial

/-- A header begins a region twice while that of the source file is open, and never ends it. -/
def overlappingRegions : List Event :=
  [ .pragma ⟨.quoted "f.cc", 1, .beginExports⟩,
    .pragma ⟨.quoted "a.h", 1, .beginExports⟩,
    .pragma ⟨.quoted "a.h", 2, .beginExports⟩,
    .pragma ⟨.quoted "f.cc", 3, .endExports⟩,
    .directive ⟨.quoted "f.cc", .quoted "b.h", .line 4, none⟩,
    .directive ⟨.quoted "a.h", .quoted "c.h", .line 4, none⟩ ]

example :
    (((start (plainEnvironment {}) (.quoted "f.cc")).afterFacts overlappingRegions).recordOf
      (.quoted "a.h")).pragmas.exported.toList = [.quoted "c.h"] ∧
    (((start (plainEnvironment {}) (.quoted "f.cc")).afterFacts overlappingRegions).recordOf
      (.quoted "f.cc")).pragmas.exported.toList = [] ∧
    ((start (plainEnvironment {}) (.quoted "f.cc")).afterFacts
      overlappingRegions).finish.1.toOption.map (fun rep =>
        (rep.allDiagnostics.withCode "W0006").length) = some 2 := by
  decide +kernel

end Session

end IncludeAudit
