import IncludeAudit.Proofs.Session.Endings
import IncludeAudit.Proofs.Session.Interleaving
import IncludeAudit.Session.Calls

/-!
# Calls that are refused

A session refuses a file that was entered before, and after it is finished it refuses everything. A
call that is refused changes nothing at all, so a session remembers of the earlier calls whether one
of them finished it and, until then, which files were entered (`CalledBy`).

* `take_eq`: a fact is taken as it is offered, unless it is refused;
* `offer_result`: an open session, and one fact;
* `calledBy_afterCalls`: what a session remembers of calls;
* `call_refusal`: which calls are refused, with which error;
* `exists_takeAll_afterFacts`, `text_afterFacts`: facts that are refused might as well not be
  offered.
-/

namespace IncludeAudit

namespace Call

/-- The file that a call enters. -/
def entered? : Call → Option FileName
  | .fact e => e.entered?
  | .finish => none

/-- True of a call that finishes a session. -/
def isFinish : Call → Bool
  | .fact _ => false
  | .finish => true

/-- Why a call is refused after earlier calls of a session on the main file, if it is. -/
def refusal? (main : FileName) (earlier : List Call) (c : Call) : Option AnalysisError :=
  if earlier.any isFinish then
    some (.invalidTransition main .finalized (if c.isFinish then .finalized else .collecting))
  else
    match c.entered? with
    | some f => if f ∈ main :: earlier.filterMap entered? then some (.alreadyAnalyzed f) else none
    | none => none

end Call

namespace Session

variable {env : Environment} {main f : FileName} {e : Event} {es : List Event} {c : Call}
  {calls earlier : List Call} {s s' : Session}

/-! ## Facts that are offered -/

theorem updateRecord_eq (s : Session) (f : FileName)
    (change : FileRecord → Except AnalysisError FileRecord) :
    s.updateRecord f change =
      (s.changeRecord f change).1.map fun _ => (s.changeRecord f change).2 := by
  unfold updateRecord changeRecord
  cases change (s.recordOf f) <;> rfl

theorem recordInclude_eq (h : s.finished = false) (d : IncludeDirective) :
    s.recordInclude d = (s.offerInclude d).1.map fun _ => (s.offerInclude d).2 := by
  have hopen : s.finished ≠ true := by simp [h]
  simp only [recordInclude, whenOpen, if_neg hopen, updateRecord_eq, offerInclude, bind, Except.bind]
  generalize changeRecord { s with
    graph := s.graph.add d
    overlay := s.overlay.observeInclude d.includer d.included } d.includer _ = first
  obtain ⟨result, s'⟩ := first
  cases result with
  | error => rfl
  | ok =>
    simp only [Except.map]
    split
    · generalize s'.changeRecord d.includer _ = second
      obtain ⟨result, s''⟩ := second
      cases result <;> rfl
    · rfl

theorem take_eq (s : Session) (e : Event) :
    s.take e = (s.offer e).1.map fun _ => (s.offer e).2 := by
  unfold take offer
  cases hfinished : s.finished with
  | true => cases e <;> exact if_pos hfinished
  | false =>
    simp only [Bool.false_eq_true, if_false]
    cases e with
    | enter f =>
      simp only [enter, whenOpen, hfinished, Bool.false_eq_true, if_false]
      split <;> rfl
    | directive d => exact recordInclude_eq hfinished d
    | declaration d =>
      simp only [recordDeclaration, whenOpen, hfinished, Bool.false_eq_true, if_false,
        offerDeclaration]
      split
      · exact updateRecord_eq _ _ _
      · rfl
    | traits k facts =>
      simp only [recordTraits, whenOpen, hfinished, Bool.false_eq_true, if_false]
      rfl
    | use u =>
      simp only [recordUse, whenOpen, hfinished, Bool.false_eq_true, if_false]
      exact updateRecord_eq _ _ _
    | pragma p =>
      simp only [recordPragma, whenOpen, hfinished, Bool.false_eq_true, if_false, offerPragma]
      cases p.pragma with
      | privateFile | noInclude | noForwardDeclare => exact updateRecord_eq _ _ _
      | beginExports | endExports | alwaysKeep | friend => rfl

/-- An open session takes every fact but a file that was entered before, which changes nothing. -/
theorem offer_result (h : s.Open) (e : Event) :
    (∃ f ∈ s.visited, e = .enter f ∧ s.offer e = (.error (.alreadyAnalyzed f), s)) ∨
      (∀ f ∈ s.visited, e ≠ .enter f) ∧ ∃ s', s.take e = .ok s' ∧ s.offer e = (.ok (), s') := by
  rcases take_result h e with ⟨f, hf, rfl, -⟩ | ⟨hnew, s', hs'⟩
  · refine .inl ⟨f, hf, rfl, ?_⟩
    simp only [offer, h.finished, Bool.false_eq_true, if_false, if_pos hf]
  · refine .inr ⟨hnew, s', hs', ?_⟩
    rw [take_eq] at hs'
    generalize s.offer e = answer at hs'
    obtain ⟨result, t⟩ := answer
    cases result with
    | error => cases hs'
    | ok =>
      cases hs'
      rfl

/-! ## What a session remembers of calls -/

/-- What a session on the main file remembers of the calls before. -/
structure CalledBy (main : FileName) (calls : List Call) (s : Session) : Prop where
  mainFile : s.mainFile = main
  finished : s.finished = calls.any (·.isFinish)
  /-- Until it is finished, it is open and knows which files were entered. -/
  entered : s.finished = false →
    s.Open ∧ ∀ f, f ∈ s.visited ↔ f ∈ main :: calls.filterMap (·.entered?)

theorem calledBy_start (env : Environment) (main : FileName) :
    CalledBy main [] (start env main) where
  mainFile := rfl
  finished := rfl
  entered _ := ⟨open_start env main, fun f => by
    simp [start, OrderedSet.mem_insert, OrderedSet.not_mem_empty]⟩

/-- A finished session stays as it is. -/
theorem call_eq_of_finished (h : s.finished = true) (c : Call) :
    s.call c = (.error (.invalidTransition s.mainFile .finalized
      (if c.isFinish then .finalized else .collecting)), s) := by
  cases c with
  | fact e =>
    simp only [call, offer, h, if_true]
    rfl
  | finish =>
    simp only [call, finish, h, if_true]
    rfl

namespace CalledBy

/-- One more call, by its kind and by whether it is refused. -/
theorem call (h : CalledBy main earlier s) (c : Call) :
    CalledBy main (earlier ++ [c]) (s.call c).2 := by
  cases hfinished : s.finished with
  | true =>
    rw [call_eq_of_finished hfinished]
    have hany : earlier.any (·.isFinish) = true := h.finished.symm.trans hfinished
    exact ⟨h.mainFile, by simp [hfinished, hany], fun hf => absurd (hfinished.symm.trans hf) nofun⟩
  | false =>
    have hany : earlier.any (·.isFinish) = false := h.finished.symm.trans hfinished
    cases c with
    | finish =>
      obtain ⟨t, -, hdone, hmain, -⟩ := finish_ends hfinished
      refine ⟨hmain.trans h.mainFile, hdone.trans ?_, fun hf => absurd (hdone.symm.trans hf) nofun⟩
      rw [List.any_append, List.any_cons, Call.isFinish, Bool.true_or, Bool.or_true]
    | fact e =>
      obtain ⟨hopen, hvisited⟩ := h.entered hfinished
      have hsame : (earlier ++ [Call.fact e]).any (·.isFinish) = false := by
        rw [List.any_append, hany]
        rfl
      rcases offer_result hopen e with ⟨f, hf, rfl, hoffer⟩ | ⟨-, s', htake, hoffer⟩
      · have hcall : (s.call (.fact (.enter f))).2 = s := by rw [Session.call, hoffer]
        rw [hcall]
        refine ⟨h.mainFile, hfinished.trans hsame.symm, fun _ => ⟨hopen, fun g => ?_⟩⟩
        rw [hvisited, List.filterMap_append, ← List.cons_append, List.mem_append]
        refine (or_iff_left_of_imp fun hg => ?_).symm
        obtain rfl : g = f := by simpa [Call.entered?, Event.entered?] using hg
        exact (hvisited g).1 hf
      · have hcall : (s.call (.fact e)).2 = s' := by rw [Session.call, hoffer]
        rw [hcall]
        have hlearns := take_spec htake
        refine ⟨hlearns.mainFile.trans h.mainFile, hlearns.finished.trans hsame.symm,
          fun _ => ⟨hopen.take htake, fun g => ?_⟩⟩
        rw [(follows_of_take htake).visited, OrderedSet.mem_insertAll, hvisited,
          List.filterMap_append, ← List.cons_append, List.mem_append]
        exact Iff.rfl

/-- More calls. The induction is on these; those before are carried along. -/
theorem afterCalls (h : CalledBy main earlier s) (calls : List Call) :
    CalledBy main (earlier ++ calls) (s.afterCalls calls) := by
  induction calls generalizing earlier s with
  | nil => rwa [List.append_nil]
  | cons c calls ih =>
    have hrest := ih (h.call c)
    rwa [List.append_assoc] at hrest

end CalledBy

/-- What a session remembers of calls. -/
theorem calledBy_afterCalls (env : Environment) (main : FileName) (calls : List Call) :
    CalledBy main calls ((start env main).afterCalls calls) :=
  (calledBy_start env main).afterCalls calls

/-- A call is refused after the session is finished, or if it enters a file that was entered before,
as the main file is from the beginning. It leaves the whole session as it was. Every other fact is
taken. -/
theorem call_refusal (env : Environment) (main : FileName) (calls : List Call) (c : Call) :
    match c.refusal? main calls with
    | some e => ((start env main).afterCalls calls).call c =
        (.error e, (start env main).afterCalls calls)
    | none => c = .finish ∨ (((start env main).afterCalls calls).call c).1 = .ok none := by
  have h := calledBy_afterCalls env main calls
  generalize (start env main).afterCalls calls = s at h
  unfold Call.refusal?
  cases hany : calls.any (·.isFinish) with
  | true =>
    simp only [if_true]
    rw [call_eq_of_finished (h.finished.trans hany), h.mainFile]
  | false =>
    obtain ⟨hopen, hvisited⟩ := h.entered (h.finished.trans hany)
    simp only [Bool.false_eq_true, if_false]
    cases c with
    | finish => exact .inl rfl
    | fact e =>
      rw [Call.entered?]
      rcases offer_result hopen e with ⟨f, hf, rfl, hoffer⟩ | ⟨hnew, s', -, hoffer⟩
      · rw [hvisited] at hf
        simp only [Event.entered?, if_pos hf, Session.call, hoffer]
        rfl
      · have hok : (s.call (.fact e)).1 = .ok none := by
          rw [Session.call, hoffer]
          rfl
        cases hentered : e.entered? with
        | none => exact .inr hok
        | some f =>
          have hf : ¬ f ∈ main :: calls.filterMap (·.entered?) := by
            rw [← hvisited]
            intro hf
            cases e with
            | enter g =>
              cases hentered
              exact hnew f hf rfl
            | _ => cases hentered
          simp only [if_neg hf]
          exact .inr hok

/-- Once a session is finished, a file that was entered before is refused for the other reason. -/
example : (Call.fact (.enter (.quoted "f.cc"))).refusal? (.quoted "f.cc") [.finish] =
    some (.invalidTransition (.quoted "f.cc") .finalized .collecting) := rfl

/-! ## Facts that are passed over -/

theorem afterFacts_cons (s : Session) (e : Event) (es : List Event) :
    s.afterFacts (e :: es) = (s.offer e).2.afterFacts es :=
  rfl

/-- The session after facts, of which some may be refused, is one that took all facts but files that
were entered again. The induction is on the facts. -/
theorem exists_takeAll_afterFacts (h : s.Open) (es : List Event) :
    ∃ taken, s.takeAll taken = .ok (s.afterFacts es) ∧
      ∀ e, e.entered? = none → (e ∈ taken ↔ e ∈ es) := by
  induction es generalizing s with
  | nil => exact ⟨[], rfl, fun _ _ => Iff.rfl⟩
  | cons e es ih =>
    rw [afterFacts_cons]
    rcases offer_result h e with ⟨f, hf, rfl, hoffer⟩ | ⟨-, s', htake, hoffer⟩
    · rw [hoffer]
      obtain ⟨taken, htaken, hmem⟩ := ih h
      refine ⟨taken, htaken, fun e he => (hmem e he).trans ?_⟩
      rw [List.mem_cons, or_iff_right]
      rintro rfl
      cases he
    · rw [hoffer]
      obtain ⟨taken, htaken, hmem⟩ := ih (h.take htake)
      refine ⟨e :: taken, ?_, fun e' he' => ?_⟩
      · rw [takeAll, htake]
        exact htaken
      · rw [List.mem_cons, List.mem_cons, hmem e' he']

/-- A file that is entered tells nothing of the text, so the text is the same whether some facts are
refused or not. The induction is on the facts. -/
theorem text_afterFacts (h : s.Open) (es : List Event) :
    (s.afterFacts es).text = es.foldl TextView.take s.text := by
  induction es generalizing s with
  | nil => rfl
  | cons e es ih =>
    rw [afterFacts_cons, List.foldl_cons]
    rcases offer_result h e with ⟨f, -, rfl, hoffer⟩ | ⟨-, s', htake, hoffer⟩
    · rw [hoffer]
      exact ih h
    · have htext : s'.text = s.text.take e := (follows_of_take htake).text
      rw [hoffer, ← htext]
      exact ih (h.take htake)

end Session

end IncludeAudit
