import IncludeAudit.Proofs.Decision.Edits
import IncludeAudit.Proofs.FileRecord

/-!
# Lines with a pragma

A protected include is in the full list, with the line on which the file includes it first. The
pragma that protects it may be on another line, and that one is removed.

* `place_mem_full_iff`: which lines of includes are in the full list;
* `isProtected_of_marked`: the pragmas protect the includes that carry them;
* `keepsPragma_iff`: when a pragma on an include directive survives.
-/

namespace IncludeAudit

/-- What the line of the directive says and where it stands. -/
def IncludeDirective.place (d : IncludeDirective) : LineContent × Option LineSpan :=
  (.directive d.included, some d.lines)

theorem IncludeDirective.place_inj {d e : IncludeDirective} :
    d.place = e.place ↔ d.included = e.included ∧ d.lines = e.lines := by
  simp [place]

/-- The first directive by which the file includes another. -/
def FileRecord.first? (r : FileRecord) (f : FileName) : Option IncludeDirective :=
  r.includes.find? (·.included == f)

/-- The full list has the line of the directive, or another line that includes the same file with
the same pragma. So the file includes the other one with this pragma after the edit as well. -/
def FileReport.KeepsPragma (report : FileReport) (r : FileRecord) (d : IncludeDirective) : Prop :=
  ∃ d' ∈ r.includes, d'.included = d.included ∧ d'.pragma = d.pragma ∧
    d'.place ∈ report.full.map (·.place)

instance (report : FileReport) (r : FileRecord) (d : IncludeDirective) :
    Decidable (report.KeepsPragma r d) :=
  inferInstanceAs (Decidable (∃ d' ∈ r.includes, d'.included = d.included ∧
    d'.pragma = d.pragma ∧ d'.place ∈ report.full.map (·.place)))

namespace Plan

variable {ctx : DecisionContext} {r : FileRecord} {d : IncludeDirective} {f : FileName}

/-- Nothing else in the full list is an include directive that stands in the file. -/
theorem place_mem_full {p : Plan} : d.place ∈ (p.report ctx r).full.map (·.place) ↔
    d.place ∈ (p.presentIncludeLines r).1.map (·.place) := by
  constructor
  · intro h
    obtain ⟨l, hl, hplace⟩ := List.mem_map.1 h
    have hlines : l.lines = some d.lines := congrArg Prod.snd hplace
    have hstands : l ∈ (p.report ctx r).full.filter (·.lines.isSome) :=
      List.mem_filter.2 ⟨hl, by rw [hlines]; rfl⟩
    rcases List.mem_append.1 (full_filter_isSome.mem_iff.1 hstands) with hl | hl
    · exact List.mem_map.2 ⟨l, hl, hplace⟩
    · obtain ⟨e, -, rfl⟩ := List.mem_map.1 hl
      cases hplace
  · intro h
    obtain ⟨l, hl, hplace⟩ := List.mem_map.1 h
    have hstays := List.mem_append_left (p.presentDeclarationLines ctx r).1 hl
    exact List.mem_map.2
      ⟨l, (List.mem_filter.1 (full_filter_isSome.mem_iff.2 hstays)).1, hplace⟩

/-- The line of an include that stays is that of the first directive. -/
theorem place_mem_full_iff : d.place ∈ ((make ctx r).report ctx r).full.map (·.place) ↔
    d.included ∈ (make ctx r).kept ∧ (r.first? d.included).map (·.lines) = some d.lines := by
  have hplaces : ((make ctx r).presentIncludeLines r).1.map (·.place) =
      (splitFirst (·.included) (make ctx r).kept.contains [] r.includes).1.map (·.place) := by
    simp [presentIncludeLines, OutputLine.place, OutputLine.ofFile, IncludeDirective.place]
  rw [place_mem_full, hplaces, List.mem_map]
  constructor
  · rintro ⟨e, he, hplace⟩
    obtain ⟨hincluded, hlines⟩ := IncludeDirective.place_inj.1 hplace
    obtain ⟨hkept, hfirst⟩ := mem_splitFirst_fst.1 he
    rw [hincluded] at hkept hfirst
    refine ⟨OrderedSet.contains_eq_true.1 hkept, ?_⟩
    rw [FileRecord.first?, hfirst, Option.map_some, hlines]
  · rintro ⟨hkept, hlines⟩
    obtain ⟨e, hfirst, hlines⟩ := Option.map_eq_some_iff.1 hlines
    rw [FileRecord.first?] at hfirst
    have hincluded : e.included = d.included := by simpa using List.find?_some hfirst
    refine ⟨e, mem_splitFirst_fst.2 ?_, IncludeDirective.place_inj.2 ⟨hincluded, hlines⟩⟩
    rw [hincluded]
    exact ⟨OrderedSet.contains_eq_true.2 hkept, hfirst⟩

/-- Each of the pragmas protects its includes. -/
theorem isProtected_of_marked {pragma : IncludePragma} (h : f ∈ r.pragmas.marked pragma) :
    ctx.isProtected r f = true := by
  have hmarked := OrderedSet.contains_eq_true.2 h
  cases pragma <;> simp only [FilePragmas.marked] at hmarked <;>
    simp only [DecisionContext.isProtected, hmarked, Bool.true_or, Bool.or_true]

end Plan

namespace FileReport

variable {ctx : DecisionContext} {r : FileRecord}

/-- A record that is resolving gets a report whose full list has every protected include. A pragma
on the line of an include survives exactly if the first line that includes the file carries it. -/
theorem keepsPragma_iff (hmade : r.Made) (hstate : r.state = .resolving) :
    ∃ report done, finalize ctx r = .ok (report, done) ∧
      (∀ f ∈ r.present, ctx.isProtected r f = true → f ∈ report.fullIncludes) ∧
      ∀ d ∈ r.includes, d.pragma ≠ none →
        (report.KeepsPragma r d ↔ ∃ d' ∈ r.includes, d'.included = d.included ∧
          d'.pragma = d.pragma ∧ (r.first? d.included).map (·.lines) = some d'.lines) := by
  refine ⟨_, _, Plan.finalize_of_resolving hstate, fun f hf hprotected =>
    Plan.mem_fullIncludes.2 (Plan.mem_kept_of_isProtected hf hprotected), fun d hd hpragma => ?_⟩
  obtain ⟨pragma, hpragma⟩ := Option.ne_none_iff_exists'.1 hpragma
  have hkept : d.included ∈ (Plan.make ctx r).kept :=
    Plan.mem_kept_of_isProtected (Plan.mem_present.2 (List.mem_map_of_mem hd))
      (Plan.isProtected_of_marked (hmade.notesPragmas d hd pragma hpragma))
  refine exists_congr fun d' => and_congr_right fun _ => and_congr_right fun hincluded =>
    and_congr_right fun _ => ?_
  rw [Plan.place_mem_full_iff, hincluded, and_iff_right hkept]

/-! ## A pragma on either line -/

/-- A source file that includes `a.h` twice. -/
def twiceIncluding (first second : Option IncludePragma) : FileRecord where
  file := .quoted "f.cc"
  state := .resolving
  includes := [⟨.quoted "f.cc", .quoted "a.h", .line 1, first⟩,
    ⟨.quoted "f.cc", .quoted "a.h", .line 2, second⟩]
  pragmas :=
    FileRecord.pragmasAfter ⟨.quoted "f.cc", .quoted "a.h", .line 2, second⟩
      (FileRecord.pragmasAfter ⟨.quoted "f.cc", .quoted "a.h", .line 1, first⟩ {})

theorem made_twiceIncluding (first second : Option IncludePragma) :
    (twiceIncluding first second).Made :=
  ⟨(twiceIncluding first second).includes.map .directive ++ [.move .resolving], rfl⟩

/-- With the pragma on the first line both the include and the pragma stay. -/
theorem pragma_survives_on_first_line :
    ((twiceIncluding (some .keep) none).Made ∧
        (twiceIncluding (some .keep) none).state = .resolving) ∧
      ∃ report done, finalize twiceDeclared (twiceIncluding (some .keep) none) =
          .ok (report, done) ∧
        .quoted "a.h" ∈ report.fullIncludes ∧
        ∀ d ∈ (twiceIncluding (some .keep) none).includes, d.pragma ≠ none →
          report.KeepsPragma (twiceIncluding (some .keep) none) d := by
  have hmade := made_twiceIncluding (some .keep) none
  obtain ⟨report, done, h, hprotected, hpragmas⟩ := @keepsPragma_iff twiceDeclared _ hmade rfl
  refine ⟨⟨hmade, rfl⟩, report, done, h, hprotected _ ?_ ?_, fun d hd hpragma =>
    (hpragmas d hd hpragma).2 ?_⟩
  · decide +kernel
  · decide +kernel
  · revert d
    decide +kernel

/-- With the pragma on the second line that line is removed, and the other one stays. -/
theorem pragma_lost_on_second_line :
    (twiceIncluding none (some .keep)).Made ∧
      ∃ report done, finalize twiceDeclared (twiceIncluding none (some .keep)) =
          .ok (report, done) ∧
        ∃ d ∈ (twiceIncluding none (some .keep)).includes, d.pragma = some .keep ∧
          d.place ∈ report.remove.map (·.place) ∧
          ¬ report.KeepsPragma (twiceIncluding none (some .keep)) d := by
  refine ⟨made_twiceIncluding _ _, _, _, rfl,
    ⟨.quoted "f.cc", .quoted "a.h", .line 2, some .keep⟩, ?_, rfl, ?_, ?_⟩ <;>
  decide +kernel

end FileReport

end IncludeAudit
