import IncludeAudit.FileRecord

/-!
# How a record comes about

A record comes about by operations, one after another (`Made`); one that comes out of order is
refused and changes nothing. A pragma on an include directive is noted for the included file, so the
record tells of each file with which pragmas it is included.

* `whenIn_ok`, `collect_ok`, `addResolved_ok`, `transition_ok`: what an accepted operation does;
* `NotesPragmas.accept`, `Made.notesPragmas`: the pragmas on include directives are noted.
-/

namespace IncludeAudit

/-- The includes with a pragma. -/
def FilePragmas.marked (p : FilePragmas) : IncludePragma → OrderedSet FileName
  | .keep => p.keep
  | .reexport => p.exported
  | .associated => p.associated

namespace FileRecord

variable {r r' : FileRecord} {f : FileName}

/-! ## Accepted operations -/

theorem whenIn_ok {state : FileState} {change : FileRecord → FileRecord}
    (h : r.whenIn state change = .ok r') : r.state = state ∧ r' = change r := by
  unfold whenIn at h
  split at h
  · rename_i hs
    cases h
    exact ⟨hs, rfl⟩
  · cases h

theorem collect_ok {change : FileRecord → FileRecord} (h : r.collect change = .ok r') :
    r.state = .collecting ∧ r' = change r :=
  whenIn_ok h

theorem addResolved_ok {u : ResolvedUse} (h : r.addResolved u = .ok r') :
    r' = { r with resolved := r.resolved ++ [u] } :=
  (whenIn_ok h).2

theorem transition_ok {target : FileState} (h : r.transition target = .ok r') :
    r.state.next? = some target ∧ r' = { r with state := target } := by
  unfold transition at h
  split at h
  · rename_i hs
    cases h
    exact ⟨hs, rfl⟩
  · cases h

/-- An operation on a record. -/
inductive Step where
  | directive (d : IncludeDirective)
  | exported (f : FileName)
  | forwardDecl (id : DeclId)
  | use (u : Use)
  | noInclude (f : FileName)
  | noForwardDeclare (symbol : String)
  | privateFile
  | move (target : FileState)
  | resolved (u : ResolvedUse)

/-- The record after an operation, unless it is refused. -/
def accept (r : FileRecord) : Step → Except AnalysisError FileRecord
  | .directive d => r.recordInclude d
  | .exported f => r.markExported f
  | .forwardDecl id => r.recordForwardDecl id
  | .use u => r.recordUse u
  | .noInclude f => r.addNoInclude f
  | .noForwardDeclare symbol => r.addNoForwardDeclare symbol
  | .privateFile => r.markPrivate
  | .move target => r.transition target
  | .resolved u => r.addResolved u

/-- The record of a file after some operations. -/
def Made (r : FileRecord) : Prop :=
  ∃ steps : List Step, steps.foldlM accept (ofFile r.file) = .ok r

/-! ## Pragmas on include directives -/

/-- Each pragma on an include directive is noted for the included file. -/
def NotesPragmas (r : FileRecord) : Prop :=
  ∀ d ∈ r.includes, ∀ p, d.pragma = some p → d.included ∈ r.pragmas.marked p

theorem mem_marked_pragmasAfter {d : IncludeDirective} {pragmas : FilePragmas} {p : IncludePragma} :
    f ∈ (pragmasAfter d pragmas).marked p ↔
      f ∈ pragmas.marked p ∨ d.pragma = some p ∧ f = d.included := by
  unfold pragmasAfter
  cases hd : d.pragma with
  | none => simp
  | some q => cases q <;> cases p <;> simp [FilePragmas.marked, OrderedSet.mem_insert]

/-- A directive and an export region note something of an include, and nothing is taken back. -/
theorem NotesPragmas.accept {step : Step} (h : r.NotesPragmas) (hstep : r.accept step = .ok r') :
    r'.NotesPragmas := by
  unfold FileRecord.accept at hstep
  cases step with
  | directive d =>
    obtain ⟨-, rfl⟩ := collect_ok hstep
    intro d' hd' p hp
    refine mem_marked_pragmasAfter.2 ?_
    rcases List.mem_append.1 hd' with hd' | hd'
    · exact .inl (h d' hd' p hp)
    · obtain rfl := List.mem_singleton.1 hd'
      exact .inr ⟨hp, rfl⟩
  | exported f =>
    obtain ⟨-, rfl⟩ := collect_ok hstep
    intro d hd p hp
    have hnoted := h d hd p hp
    cases p with
    | reexport => exact OrderedSet.mem_insert.2 (.inl hnoted)
    | keep | associated => exact hnoted
  | noInclude | noForwardDeclare | privateFile =>
    obtain ⟨-, rfl⟩ := collect_ok hstep
    intro d hd p hp
    have hnoted := h d hd p hp
    cases p <;> exact hnoted
  | forwardDecl | use =>
    obtain ⟨-, rfl⟩ := collect_ok hstep
    exact h
  | move =>
    obtain ⟨-, rfl⟩ := transition_ok hstep
    exact h
  | resolved =>
    obtain rfl := addResolved_ok hstep
    exact h

/-- The induction is on the operations. -/
theorem NotesPragmas.foldlM {steps : List Step} (h : r.NotesPragmas)
    (hsteps : steps.foldlM FileRecord.accept r = .ok r') : r'.NotesPragmas := by
  induction steps generalizing r with
  | nil =>
    cases hsteps
    exact h
  | cons step steps ih =>
    rw [List.foldlM_cons] at hsteps
    cases hstep : r.accept step with
    | error =>
      rw [hstep] at hsteps
      cases hsteps
    | ok r₁ =>
      rw [hstep] at hsteps
      exact ih (h.accept hstep) hsteps

/-- Nothing is included in the record of a file of which nothing is known. -/
theorem Made.notesPragmas (h : r.Made) : r.NotesPragmas := by
  obtain ⟨steps, hsteps⟩ := h
  have hstart : (ofFile r.file).NotesPragmas := List.forall_mem_nil _
  exact hstart.foldlM hsteps

end FileRecord

end IncludeAudit
