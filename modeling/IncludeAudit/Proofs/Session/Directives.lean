import IncludeAudit.Proofs.Graph.Cycles
import IncludeAudit.Proofs.Session.Refusals

/-!
# What directives and pragmas tell

What a session knows of includes, of associated headers and of faults in the text, told by the
directives and pragmas among its facts (`Tells`). This holds of a session that was offered facts of
which some were refused, since these are no directives.

* `tells_take`, `tells_foldl`: one fact, and several;
* `exists_recorded`: what a session has after facts of which some may be refused;
* `includes_afterFacts`, `associated_afterFacts`, `log_afterFacts`: the include graph, the associated
  headers and the log of such a session.
-/

namespace IncludeAudit

variable {es es' : List Event} {e : Event} {f g : FileName}

/-! ## Facts about includes -/

namespace Event

/-- The include directive of a fact. -/
def directive? : Event → Option IncludeDirective
  | .directive d => some d
  | _ => none

/-- The header that a fact marks as associated with the file. -/
def associatedIn? (f : FileName) : Event → Option FileName
  | .directive d => if d.includer = f ∧ d.pragma = some .associated then some d.included else none
  | _ => none

theorem associatedIn?_eq_some : e.associatedIn? f = some g ↔
    ∃ d, e = .directive d ∧ d.includer = f ∧ d.included = g ∧ d.pragma = some .associated := by
  cases e with
  | directive d => simp [associatedIn?, and_comm, and_left_comm]
  | _ => simp [associatedIn?]

end Event

theorem mem_directives {d : IncludeDirective} :
    d ∈ es.filterMap (·.directive?) ↔ .directive d ∈ es := by
  rw [List.mem_filterMap]
  constructor
  · rintro ⟨e, he, hd⟩
    cases e <;> cases hd
    exact he
  · exact fun hd => ⟨.directive d, hd, rfl⟩

/-- One file includes another directly. -/
def Includes (es : List Event) (a b : FileName) : Prop :=
  ∃ d, .directive d ∈ es ∧ d.includer = a ∧ d.included = b

/-- A file includes a header with the associated pragma. -/
def Associates (es : List Event) (f header : FileName) : Prop :=
  ∃ d, .directive d ∈ es ∧ d.includer = f ∧ d.included = header ∧ d.pragma = some .associated

/-- A diagnostic about a fault in the text: a pattern that cannot be read or an export region that is
not opened and closed in turn. -/
def Diagnostic.IsTextual (d : Diagnostic) : Prop :=
  d.code = some "W0001" ∨ d.code = some "W0006"

/-! ## One fact after another -/

namespace TextView

variable {x x' x'' : TextView}

/-- What facts tell of the text. -/
structure Tells (es : List Event) (x x' : TextView) : Prop where
  directives : x'.graph.directives = x.graph.directives ++ es.filterMap (·.directive?)
  associated : ∀ f, (x'.pragmas f).associated =
    (x.pragmas f).associated.insertAll (es.filterMap (·.associatedIn? f))
  log : ∃ faults, x'.log = x.log ++ faults ∧ ∀ d ∈ faults, d.IsTextual

theorem Tells.trans (h : Tells es x x') (h' : Tells es' x' x'') : Tells (es ++ es') x x'' where
  directives := by rw [h'.directives, h.directives, List.filterMap_append, List.append_assoc]
  associated f := by
    rw [h'.associated, h.associated, List.filterMap_append]
    exact (List.foldl_append ..).symm
  log := by
    obtain ⟨faults, hlog, hfaults⟩ := h.log
    obtain ⟨faults', hlog', hfaults'⟩ := h'.log
    exact ⟨faults ++ faults', by rw [hlog', hlog, List.append_assoc],
      List.forall_mem_append.2 ⟨hfaults, hfaults'⟩⟩

theorem associated_setPragmas (x : TextView) (f g : FileName) (p : FilePragmas) :
    ((x.setPragmas f p).pragmas g).associated =
      if g = f then p.associated else (x.pragmas g).associated := by
  simp only [setPragmas]
  split <;> rfl

/-- An include directive, whether its file re-exports it or not. -/
theorem tells_directive (x : TextView) (d : IncludeDirective) :
    Tells [.directive d] x (x.recordInclude d) := by
  have hassociated (f : FileName) : ((x.recordInclude d).pragmas f).associated =
      if f = d.includer then (FileRecord.pragmasAfter d (x.pragmas d.includer)).associated
      else (x.pragmas f).associated := by
    unfold recordInclude
    dsimp only
    split <;> exact associated_setPragmas x d.includer f _
  refine ⟨?_, fun f => ?_, [], ?_, List.forall_mem_nil _⟩
  · unfold recordInclude
    dsimp only
    split <;> rfl
  · rw [hassociated, Session.pragmasAfter_associated, List.filterMap_cons, Event.associatedIn?]
    by_cases hf : d.includer = f
    · subst hf
      by_cases hp : d.pragma = some .associated
      · simp only [hp, and_self, if_true]
        rfl
      · simp only [hp, and_false, if_true, if_false]
        rfl
    · rw [if_neg (Ne.symm hf), if_neg fun h => hf h.1]
      rfl
  · unfold recordInclude
    dsimp only
    rw [List.append_nil]
    split <;> rfl

/-- A pragma that concerns its file changes no include and marks no header as associated. -/
theorem tells_pragma (x : TextView) (p : PragmaNote) :
    Tells [.pragma p] x (x.recordPragma p.file p.line p.pragma) := by
  obtain ⟨f, line, pragma⟩ := p
  have hpragmas {q : FilePragmas} (o : Overlay) (hq : q.associated = (x.pragmas f).associated) :
      Tells [.pragma ⟨f, line, pragma⟩] x { x.setPragmas f q with overlay := o } := by
    refine ⟨(List.append_nil _).symm, fun g => ?_, [], (List.append_nil _).symm,
      List.forall_mem_nil _⟩
    refine (associated_setPragmas x f g q).trans ?_
    rw [hq]
    split
    · rename_i hg
      rw [hg]
      rfl
    · rfl
  have hreport {d : Diagnostic} (hd : d.IsTextual) :
      Tells [.pragma ⟨f, line, pragma⟩] x (x.report d) :=
    ⟨(List.append_nil _).symm, fun g => rfl, [d], rfl, List.forall_mem_singleton.2 hd⟩
  have hsame (o : Overlay) (r : OrderedMap FileName Nat) :
      Tells [.pragma ⟨f, line, pragma⟩] x { x with overlay := o, openExports := r } :=
    ⟨(List.append_nil _).symm, fun g => rfl, [], (List.append_nil _).symm, List.forall_mem_nil _⟩
  unfold recordPragma
  cases pragma with
  | privateFile | noInclude | noForwardDeclare => exact hpragmas _ rfl
  | alwaysKeep => exact hsame _ _
  | beginExports =>
    dsimp only
    split
    · exact hreport (.inr rfl)
    · exact hsame _ _
  | endExports =>
    dsimp only
    split
    · exact hsame _ _
    · exact hreport (.inr rfl)
  | friend =>
    dsimp only
    split
    · exact hsame _ _
    · exact hreport (.inl rfl)

theorem tells_take (x : TextView) (e : Event) : Tells [e] x (x.take e) := by
  cases e with
  | directive d => exact tells_directive x d
  | pragma p => exact tells_pragma x p
  | _ =>
    exact ⟨(List.append_nil _).symm, fun f => rfl, [], (List.append_nil _).symm,
      List.forall_mem_nil _⟩

/-- The induction is on the facts. -/
theorem tells_foldl (es : List Event) (x : TextView) : Tells es x (es.foldl take x) := by
  induction es generalizing x with
  | nil =>
    exact ⟨(List.append_nil _).symm, fun f => rfl, [], (List.append_nil _).symm,
      List.forall_mem_nil _⟩
  | cons e es ih => exact (tells_take x e).trans (ih _)

end TextView

/-! ## Sessions that were offered facts -/

namespace Session

/-- A session after facts has what some of these are about, among them all directives. -/
theorem exists_recorded (env : Environment) (main : FileName) (es : List Event) :
    ∃ taken, Recorded env main taken ((start env main).afterFacts es) ∧
      TextView.Tells taken (start env main).text ((start env main).afterFacts es).text ∧
      ∀ e, e.entered? = none → (e ∈ taken ↔ e ∈ es) := by
  obtain ⟨taken, htaken, hmem⟩ := exists_takeAll_afterFacts (open_start env main) es
  refine ⟨taken, recorded_of_takeAll htaken, ?_, hmem⟩
  rw [(follows_of_takeAll htaken).text]
  exact TextView.tells_foldl taken _

/-- The include graph has the directives. -/
theorem includes_afterFacts (env : Environment) (main : FileName) (es : List Event)
    (a b : FileName) : ((start env main).afterFacts es).graph.Includes a b ↔ Includes es a b := by
  obtain ⟨taken, -, htells, hmem⟩ := exists_recorded env main es
  have hdirectives : ((start env main).afterFacts es).graph.directives =
      taken.filterMap (·.directive?) := htells.directives
  rw [IncludeGraph.includes_iff, hdirectives]
  refine exists_congr fun d => and_congr_left fun _ => ?_
  rw [mem_directives, hmem _ rfl]

theorem associated_afterFacts (env : Environment) (main : FileName) (es : List Event)
    (f header : FileName) :
    header ∈ (((start env main).afterFacts es).recordOf f).pragmas.associated ↔
      Associates es f header := by
  obtain ⟨taken, -, htells, hmem⟩ := exists_recorded env main es
  have hassociated := htells.associated f
  simp only [text, recordOf_start] at hassociated
  have hnew : header ∉ (FileRecord.ofFile f).pragmas.associated := OrderedSet.not_mem_empty
  rw [hassociated, OrderedSet.mem_insertAll, or_iff_right hnew, List.mem_filterMap]
  simp only [Event.associatedIn?_eq_some]
  constructor
  · rintro ⟨e, he, d, rfl, hd⟩
    exact ⟨d, (hmem _ rfl).1 he, hd⟩
  · rintro ⟨d, hd, hheader⟩
    exact ⟨_, (hmem _ rfl).2 hd, d, rfl, hheader⟩

/-- Lists of globs have diagnostics about patterns that cannot be read only. -/
theorem code_of_mem_compile (engine : PatternEngine) (sources : List String) :
    ∀ d ∈ (FileGlobs.compile engine sources).2, d.code = some "W0001" := by
  induction sources with
  | nil => exact List.forall_mem_nil _
  | cons source sources ih =>
    rw [FileGlobs.compile]
    dsimp only
    split
    · exact ih
    · exact List.forall_mem_cons.2 ⟨rfl, ih⟩

/-- A session begins with diagnostics about patterns that cannot be read only. -/
theorem code_of_mem_start (env : Environment) (main : FileName) :
    ∀ d ∈ (start env main).log, d.code = some "W0001" :=
  List.forall_mem_append.2 ⟨code_of_mem_compile _ _, code_of_mem_compile _ _⟩

/-- Until it is finished, a session has diagnostics about faults in the text only. -/
theorem log_afterFacts (env : Environment) (main : FileName) (es : List Event) :
    ∀ d ∈ ((start env main).afterFacts es).log, d.IsTextual := by
  obtain ⟨taken, -, htells, -⟩ := exists_recorded env main es
  obtain ⟨faults, hlog, hfaults⟩ := htells.log
  have hall : ((start env main).afterFacts es).log = (start env main).log ++ faults := hlog
  rw [hall, List.forall_mem_append]
  exact ⟨fun d hd => .inl (code_of_mem_start env main d hd), hfaults⟩

end Session

end IncludeAudit
