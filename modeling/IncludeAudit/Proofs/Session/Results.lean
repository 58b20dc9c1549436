import IncludeAudit.Proofs.Session.Backing
import IncludeAudit.Proofs.Session.Directives
import Mathlib.Data.List.Nodup

/-!
# Results of sessions

A session that is finished has reports of distinct files, the main file first, or one of two errors:
an include cycle that is fatal, or a double instantiation. There is one exception. A main file that
includes itself with the associated pragma is among its own associated headers, so its report is to
be made twice; if cycles are ignored, the second one is refused.

* `count_reportOrder`, `nodup_reportOrder`: which file comes twice, if one does;
* `Reports.map_file`, `Reports.map_file_perm`: the files of the reports;
* `finish_result`: the result of a session.
-/

namespace IncludeAudit

namespace Session

variable {env : Environment} {main : FileName} {es : List Event} {s : Session}

/-! ## Which files are reported -/

theorem nodup_associatedHeaders (s : Session) : s.associatedHeaders.Nodup := by
  unfold associatedHeaders
  dsimp only
  split
  · exact OrderedSet.nodup _
  · split <;> exact OrderedSet.nodup _

/-- A header that belongs to a source file by its name is another file. -/
theorem mainFile_mem_associatedHeaders :
    s.mainFile ∈ s.associatedHeaders ↔
      s.mainFile ∈ (s.recordOf s.mainFile).pragmas.associated := by
  unfold associatedHeaders
  dsimp only
  split
  · exact OrderedSet.mem_def.symm
  · rename_i hsource
    split
    · rename_i header hheader
      rw [← OrderedSet.mem_def, OrderedSet.mem_insert, or_iff_left]
      intro hmain
      have hbelongs := List.find?_some hheader
      simp only [belongsByName, Bool.and_eq_true, ← hmain] at hbelongs
      exact hsource hbelongs.1.1
    · exact OrderedSet.mem_def.symm

theorem mem_extraFiles {f : FileName} (h : f ∈ s.extraFiles) :
    f ≠ s.mainFile ∧ f ∉ s.associatedHeaders := by
  have hf := (List.mem_filter.1 h).2
  simp only [Bool.and_eq_true, bne_iff_ne, Bool.not_eq_true', List.contains_eq_mem,
    decide_eq_false_iff_not] at hf
  exact ⟨hf.1.1, hf.1.2⟩

theorem nodup_extraFiles (s : Session) : s.extraFiles.Nodup :=
  s.graph.files.nodup.filter _

/-- The only file that may come twice is the main file. -/
theorem count_reportOrder {f : FileName} (h : 1 < s.reportOrder.count f) :
    f = s.mainFile ∧ s.mainFile ∈ (s.recordOf s.mainFile).pragmas.associated := by
  rw [← mainFile_mem_associatedHeaders]
  have hassociated := List.nodup_iff_count_le_one.1 s.nodup_associatedHeaders f
  have hextra := List.nodup_iff_count_le_one.1 s.nodup_extraFiles f
  rw [reportOrder, List.count_append, List.count_cons] at h
  by_cases hf : f ∈ s.extraFiles
  · obtain ⟨hmain, hnot⟩ := mem_extraFiles hf
    rw [List.count_eq_zero.2 hnot, if_neg (by simpa using Ne.symm hmain)] at h
    omega
  · rw [List.count_eq_zero.2 hf] at h
    split at h
    · rename_i hmain
      obtain rfl : s.mainFile = f := by simpa using hmain
      exact ⟨rfl, List.count_pos_iff.1 (by omega)⟩
    · omega

theorem nodup_reportOrder : s.reportOrder.Nodup ↔
    s.mainFile ∉ (s.recordOf s.mainFile).pragmas.associated := by
  rw [← mainFile_mem_associatedHeaders]
  constructor
  · intro h hmain
    rw [reportOrder, List.nodup_append] at h
    exact h.2.2 _ hmain _ List.mem_cons_self rfl
  · intro h
    refine List.nodup_iff_count_le_one.2 fun f => Nat.le_of_not_lt fun hcount => ?_
    exact h (mainFile_mem_associatedHeaders.2 (count_reportOrder hcount).2)

/-! ## The reports -/

theorem Recorded.haveReports (h : Recorded env main es s) :
    HaveReports [] s.closed :=
  fun f => ⟨h.file f, h.state f⟩

theorem forall₂_file (hfile : ∀ f, (s.recordOf f).file = f) {on : Reliance} {fs : List FileName}
    {reports : List FileReport} (h : List.Forall₂ (Reported s on) fs reports) :
    reports.map (·.file) = fs := by
  induction h with
  | nil => rfl
  | cons head _ ih => rw [List.map_cons, ih, head.file, hfile]

/-- The main file is reported first. -/
theorem Reports.map_file {files : List FileReport} {mainReport : FileReport}
    {associated extra : List FileReport} (h : Reports s files mainReport associated extra)
    (hfile : ∀ f, (s.recordOf f).file = f) :
    files.map (·.file) = s.mainFile :: (s.associatedHeaders ++ s.extraFiles) := by
  rw [h.files, List.map_append, List.map_cons, forall₂_file hfile h.associated,
    forall₂_file hfile h.extra, h.main.file, hfile, List.cons_append]

theorem Reports.map_file_perm {files : List FileReport} {mainReport : FileReport}
    {associated extra : List FileReport} (h : Reports s files mainReport associated extra)
    (hfile : ∀ f, (s.recordOf f).file = f) : (files.map (·.file)).Perm s.reportOrder := by
  rw [h.map_file hfile, reportOrder]
  exact List.perm_middle.symm

/-! ## The result -/

/-- A session that is finished makes reports of distinct files, the main file first, unless an
include cycle is fatal or a specialization is instantiated twice. The one exception is a main file
that is associated with itself, which never has its reports. -/
theorem finish_result (env : Environment) (main : FileName) (es : List Event) :
    match ((start env main).afterFacts es).finish.1 with
    | .ok rep => (rep.files.map (·.file)).Nodup ∧ (rep.files.map (·.file)).head? = some main ∧
        ¬ Associates es main main
    | .error e => (env.policy.ignoreCycles = false ∧ ∃ f path, e = .includeCycle f path) ∨
        e.IsInstantiation ∨ (Associates es main main ∧ env.policy.ignoreCycles = true ∧
          e = .invalidTransition main .finalized .resolving) := by
  obtain ⟨taken, hrec, -, -⟩ := exists_recorded env main es
  have hself := associated_afterFacts env main es main main
  have hincludes := includes_afterFacts env main es main main
  generalize (start env main).afterFacts es = s at hrec hself hincludes
  obtain ⟨t, hends, -, -, -⟩ := finish_ends hrec.finished
  split
  · rename_i rep hrep
    rw [hrep] at hends
    have hnodup := (hends.disjoint hrec.haveReports).1
    obtain ⟨-, mainReport, associated, extra, hreports⟩ := finish_ok hrep hrec.resolved
    refine ⟨(hreports.map_file_perm hrec.file).nodup_iff.2 hnodup, ?_, ?_⟩
    · rw [hreports.map_file hrec.file, hrec.mainFile, List.head?_cons]
    · rw [← hself]
      exact hrec.mainFile ▸ nodup_reportOrder.1 hnodup
  · rename_i e he
    rw [he] at hends
    obtain ⟨before, f, after, horder, hacyclic, hcycle | hinst | ⟨hf, rfl⟩⟩ :=
      hends.error hrec.haveReports
    · obtain ⟨hfatal, path, -, rfl⟩ := hcycle
      rw [← hrec.environment]
      exact .inl ⟨hfatal, f, path, rfl⟩
    · exact .inr (.inl hinst)
    · have hcount : 1 < s.reportOrder.count f := by
        have := List.count_pos_iff.2 hf
        rw [horder, List.count_append, List.count_cons_self]
        omega
      obtain ⟨rfl, hmain⟩ := count_reportOrder hcount
      rw [hrec.mainFile] at hmain hf ⊢
      refine .inr (.inr ⟨hself.1 hmain, ?_, rfl⟩)
      rw [← hrec.environment]
      -- if cycles were fatal, the first report of the main file would have failed
      refine (Bool.eq_false_or_eq_true _).resolve_right fun hfatal => ?_
      obtain ⟨d, hd, hincluder, hincluded, -⟩ := hself.1 hmain
      exact IncludeGraph.findCycle_eq_none.1 (hacyclic hfatal main hf)
        (.single (hincludes.2 ⟨d, hd, hincluder, hincluded⟩))

/-- A source file that includes itself as the header associated with it. -/
def selfAssociator : List Event :=
  [.directive ⟨.quoted "f.cc", .quoted "f.cc", .line 1, some .associated⟩]

/-- The report of the file is made once and refused the second time, so there is no result. -/
theorem finish_of_selfAssociator :
    ((start (plainEnvironment { ignoreCycles := true }) (.quoted "f.cc")).afterFacts
      selfAssociator).finish.1 =
        .error (.invalidTransition (.quoted "f.cc") .finalized .resolving) := by
  decide +kernel

end Session

end IncludeAudit
