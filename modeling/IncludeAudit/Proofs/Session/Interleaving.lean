import IncludeAudit.Proofs.Session.Backing
import IncludeAudit.Proofs.Session.Finishing
import IncludeAudit.Proofs.Session.Symbols
import IncludeAudit.Session.CompilationUnit

/-!
# Facts in another order

The facts of a compilation unit may be delivered in any order that keeps the order of each channel:
uses may come before or after the declarations and the includes on which they depend.

* `takeAll_result`: the only fact that is refused is a file that is entered again, so whether all
  facts are taken depends on the files that are entered;
* `alike_of_sameByChannel`: sessions that took the same facts in different orders are alike;
* `analyze_eq_of_sameByChannel`: they have the same result.
-/

namespace IncludeAudit

variable {es es' : List Event}

/-- The facts that come through a channel. -/
def through (c : Channel) (es : List Event) : List Event :=
  es.filter (·.channel == c)

/-- Two lists with the same facts in each channel, in the same order there. -/
def SameByChannel (es es' : List Event) : Prop :=
  ∀ c, through c es = through c es'

/-- What is read off the facts of one channel only. -/
theorem filterMap_through {β : Type} {p : Event → Option β} {c : Channel}
    (h : ∀ e, e.channel ≠ c → p e = none) (es : List Event) :
    (through c es).filterMap p = es.filterMap p := by
  rw [through, List.filterMap_filter]
  refine List.filterMap_congr fun e _ => ?_
  split
  · rfl
  · rename_i he
    exact (h e (by simpa using he)).symm

namespace SameByChannel

theorem filterMap_eq {β : Type} {p : Event → Option β} {c : Channel} (h : SameByChannel es es')
    (hp : ∀ e, e.channel ≠ c → p e = none) : es.filterMap p = es'.filterMap p := by
  rw [← filterMap_through hp es, h c, filterMap_through hp es']

theorem entered_eq (h : SameByChannel es es') :
    es.filterMap (·.entered?) = es'.filterMap (·.entered?) :=
  h.filterMap_eq (c := .entries) fun e he => by cases e <;> trivial

theorem directivesIn_eq (h : SameByChannel es es') (f : FileName) :
    directivesIn f es = directivesIn f es' :=
  h.filterMap_eq (c := .text) fun e he => by cases e <;> trivial

theorem declarations_eq (h : SameByChannel es es') :
    es.filterMap (·.declaration?) = es'.filterMap (·.declaration?) :=
  h.filterMap_eq (c := .declarations) fun e he => by cases e <;> trivial

theorem traits_eq (h : SameByChannel es es') (k : SymbolKey) :
    es.filterMap (·.traitsOf? k) = es'.filterMap (·.traitsOf? k) :=
  h.filterMap_eq (c := .traits) fun e he => by cases e <;> trivial

theorem usesIn_eq (h : SameByChannel es es') (f : FileName) : usesIn f es = usesIn f es' :=
  h.filterMap_eq (c := .uses) fun e he => by cases e <;> trivial

theorem mem_iff (h : SameByChannel es es') {e : Event} : e ∈ es ↔ e ∈ es' := by
  have hmem (es : List Event) : e ∈ through e.channel es ↔ e ∈ es := by
    simp [through]
  rw [← hmem es, h, hmem es']

end SameByChannel

/-- Facts of other channels leave the text as it is. -/
theorem TextView.foldl_through (es : List Event) (x : TextView) :
    (through .text es).foldl take x = es.foldl take x := by
  rw [through, List.foldl_filter]
  congr 1
  funext x e
  cases e <;> rfl

theorem FileRecord.eq_of_fields {r r' : FileRecord} (hfile : r.file = r'.file)
    (hstate : r.state = r'.state) (hincludes : r.includes = r'.includes)
    (hforward : r.forwardDecls = r'.forwardDecls) (huses : r.uses = r'.uses)
    (hresolved : r.resolved = r'.resolved) (hpragmas : r.pragmas = r'.pragmas) : r = r' := by
  cases r
  simp_all only

namespace Session

open FileRecord (collect_ok)

variable {s s' t : Session} {f : FileName} {e : Event}

/-! ## Facts that are refused -/

/-- True of a session that has not begun to make reports. -/
structure Open (s : Session) : Prop where
  finished : s.finished = false
  collecting : ∀ f, (s.recordOf f).state = .collecting

theorem open_start (env : Environment) (main : FileName) : (start env main).Open :=
  ⟨rfl, (recorded_start env main).state⟩

theorem Open.take (h : s.Open) (ht : s.take e = .ok s') : s'.Open := by
  have hlearns := take_spec ht
  exact ⟨hlearns.finished, fun f => (hlearns.records f).state.trans (h.collecting f)⟩

theorem whenOpen_eq (h : s.Open) (next : Except AnalysisError Session) :
    s.whenOpen next = next := by
  rw [whenOpen, h.finished]
  rfl

/-- A record that is collecting takes what is only taken then. -/
theorem exists_updateRecord {change : FileRecord → Except AnalysisError FileRecord}
    {collected : FileRecord → FileRecord} (hchange : ∀ r, change r = r.collect collected)
    (h : (s.recordOf f).state = .collecting) : ∃ s', s.updateRecord f change = .ok s' := by
  rw [updateRecord, hchange, FileRecord.collect, FileRecord.whenIn, if_pos h]
  exact ⟨_, rfl⟩

/-- An open session takes every fact but a file that was entered before. -/
theorem take_result (h : s.Open) (e : Event) :
    (∃ f ∈ s.visited, e = .enter f ∧ s.take e = .error (.alreadyAnalyzed f)) ∨
      (∀ f ∈ s.visited, e ≠ .enter f) ∧ ∃ s', s.take e = .ok s' := by
  cases e with
  | enter f =>
    rw [take, enter, whenOpen_eq h]
    by_cases hf : f ∈ s.visited
    · exact .inl ⟨f, hf, rfl, if_pos hf⟩
    · refine .inr ⟨?_, _, if_neg hf⟩
      rintro g hg heq
      cases heq
      exact hf hg
  | directive d =>
    refine .inr ⟨nofun, ?_⟩
    rw [take, recordInclude, whenOpen_eq h]
    obtain ⟨s₁, hs₁⟩ : ∃ s₁, ({ s with
        graph := s.graph.add d
        overlay := s.overlay.observeInclude d.includer d.included } : Session).updateRecord
          d.includer (·.recordInclude d) = .ok s₁ :=
      exists_updateRecord (fun _ => rfl) (h.collecting d.includer)
    have hcollecting : (s₁.recordOf d.includer).state = .collecting := by
      obtain ⟨r, hr, rfl⟩ := updateRecord_ok hs₁
      obtain ⟨-, rfl⟩ := collect_ok hr
      rw [recordOf_putRecord, if_pos rfl]
      exact h.collecting d.includer
    obtain ⟨s₂, hs₂⟩ : ∃ s₂, s₁.updateRecord d.includer (·.markExported d.included) = .ok s₂ :=
      exists_updateRecord (fun _ => rfl) hcollecting
    simp only [hs₁, hs₂, bind, Except.bind]
    split <;> exact ⟨_, rfl⟩
  | declaration d =>
    refine .inr ⟨nofun, ?_⟩
    rw [take, recordDeclaration, whenOpen_eq h]
    dsimp only
    split
    · exact exists_updateRecord (fun _ => rfl) (h.collecting d.file)
    · exact ⟨_, rfl⟩
  | traits k facts =>
    refine .inr ⟨nofun, ?_⟩
    rw [take, recordTraits, whenOpen_eq h]
    exact ⟨_, rfl⟩
  | use u =>
    refine .inr ⟨nofun, ?_⟩
    rw [take, recordUse, whenOpen_eq h]
    exact exists_updateRecord (fun _ => rfl) (h.collecting u.referencingFile)
  | pragma p =>
    refine .inr ⟨nofun, ?_⟩
    rw [take, recordPragma, whenOpen_eq h]
    cases p.pragma with
    | privateFile | noInclude | noForwardDeclare =>
      exact exists_updateRecord (fun _ => rfl) (h.collecting p.file)
    | beginExports | endExports | alwaysKeep | friend => exact ⟨_, rfl⟩

/-- The first file that is entered again. -/
def reentered? (seen : OrderedSet FileName) : List FileName → Option FileName
  | [] => none
  | f :: fs => if f ∈ seen then some f else reentered? (seen.insert f) fs

/-- All facts are taken unless a file is entered again. The induction is on the facts. -/
theorem takeAll_result (h : s.Open) (es : List Event) :
    match reentered? s.visited (es.filterMap (·.entered?)) with
    | some f => s.takeAll es = .error (.alreadyAnalyzed f)
    | none => ∃ s', s.takeAll es = .ok s' := by
  induction es generalizing s with
  | nil => exact ⟨s, rfl⟩
  | cons e es ih =>
    rw [takeAll]
    rcases take_result h e with ⟨f, hf, rfl, herror⟩ | ⟨hnew, s', hs'⟩
    · rw [herror, List.filterMap_cons, Event.entered?]
      simp only [reentered?, if_pos hf]
    · have hrest := ih (h.take hs')
      rw [(follows_of_take hs').visited] at hrest
      rw [hs']
      cases e with
      | enter f =>
        have hf : f ∉ s.visited := fun hf => hnew f hf rfl
        rw [List.filterMap_cons, Event.entered?]
        simp only [reentered?, if_neg hf]
        exact hrest
      | _ => exact hrest

/-! ## Facts that are taken -/

/-- Sessions are alike that took the same facts of each channel. -/
theorem alike_of_sameByChannel {env : Environment} {main : FileName} (h : SameByChannel es es')
    (hs : (start env main).takeAll es = .ok s) (ht : (start env main).takeAll es' = .ok t) :
    s.Alike t := by
  have hrs := recorded_of_takeAll hs
  have hrt := recorded_of_takeAll ht
  have hfs := follows_of_takeAll hs
  have hft := follows_of_takeAll ht
  have htext : s.text = t.text := by
    rw [hfs.text, hft.text, ← TextView.foldl_through es, h, TextView.foldl_through]
  have htable : s.table.Alike t.table := by
    rw [hfs.table, hft.table]
    exact SymbolTable.alike_of_foldl _ h.declarations_eq h.traits_eq fun k => by
      simp only [h.mem_iff]
  refine
  { environment := hrs.environment.trans hrt.environment.symm
    mainFile := hrs.mainFile.trans hrt.mainFile.symm
    table := htable
    graph := congrArg TextView.graph htext
    overlay := congrArg TextView.overlay htext
    attributor := hfs.attributor.trans hft.attributor.symm
    records := fun f => ?_
    openExports := congrArg TextView.openExports htext
    keepGlobs := hfs.keepGlobs.trans hft.keepGlobs.symm
    checkAlso := hfs.checkAlso.trans hft.checkAlso.symm
    log := congrArg TextView.log htext
    finished := hrs.finished.trans hrt.finished.symm }
  refine FileRecord.eq_of_fields ?_ ?_ ?_ ?_ ?_ ?_ (congrFun (congrArg TextView.pragmas htext) f)
  · rw [hrs.file, hrt.file]
  · rw [hrs.state, hrt.state]
  · rw [hrs.includes, hrt.includes, h.directivesIn_eq]
  · rw [(indexed_start env main).takeAll hs f, (indexed_start env main).takeAll ht f]
    simp only [SymbolTable.declarationsWhere, htable.declarations]
  · rw [hrs.uses, hrt.uses, h.usesIn_eq]
  · rw [hrs.resolved, hrt.resolved]

end Session

namespace CompilationUnit

open Session (start) in
/-- A compilation unit has the same result, a report or an error, for each order of its facts that
keeps the order of the include directives and pragmas, that of the declarations, that of the traits,
that of the uses and that of the entered files. -/
theorem analyze_eq_of_sameByChannel (env : Environment) (main : FileName)
    (h : SameByChannel es es') : analyze env ⟨main, es⟩ = analyze env ⟨main, es'⟩ := by
  have hs := Session.takeAll_result (Session.open_start env main) es
  have ht := Session.takeAll_result (Session.open_start env main) es'
  rw [← h.entered_eq] at ht
  unfold analyze
  cases hagain : Session.reentered? (start env main).visited (es.filterMap (·.entered?)) with
  | some f =>
    simp only [hagain] at hs ht
    rw [hs, ht]
  | none =>
    simp only [hagain] at hs ht
    obtain ⟨s, hs⟩ := hs
    obtain ⟨t, ht⟩ := ht
    rw [hs, ht]
    exact Session.finish_alike (Session.alike_of_sameByChannel h hs ht)

/-- A source file includes a header that defines a class, and uses the class. -/
def includedClass : List Event :=
  [.directive ⟨.quoted "f.cc", .quoted "c.h", .line 1, none⟩,
    .declaration
      { symbol := ⟨"C", .record⟩, location := .plain ⟨.quoted "c.h", 3, 1⟩, isDefinition := true },
    .use
      { symbol := ⟨"C", .record⟩, location := .plain ⟨.quoted "f.cc", 9, 1⟩
        hints := { memberAccess := true } } ]

/-- The use may come first and the include last. -/
theorem analyze_includedClass_reverse :
    ∃ rep, analyze (Session.plainEnvironment {}) ⟨.quoted "f.cc", includedClass.reverse⟩ = .ok rep ∧
      ∃ report ∈ rep.files, ∃ o ∈ report.uses, o.status = .included (.quoted "c.h") := by
  have hsame : SameByChannel includedClass.reverse includedClass := by
    intro c
    cases c <;> rfl
  obtain ⟨rep, hrep, hserved⟩ := exists_ok (p := fun rep => rep.files.any fun report =>
      report.uses.any fun o => o.status == .included (.quoted "c.h"))
    (by decide +kernel : (analyze (Session.plainEnvironment {})
      ⟨.quoted "f.cc", includedClass⟩).toOption.any _ = true)
  simp only [List.any_eq_true, beq_iff_eq] at hserved
  exact ⟨rep, (analyze_eq_of_sameByChannel _ _ hsame).trans hrep, hserved⟩

end CompilationUnit

end IncludeAudit
