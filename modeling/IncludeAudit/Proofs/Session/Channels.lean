import IncludeAudit.Proofs.Session.Recording

/-!
# Channels of facts

A session learns from include directives and pragmas, from declarations, from traits, from uses, and
from the files that are entered. What it learns through one of these channels does not depend on the
others, so it is described by the facts of that channel alone:

* `TextView.take`: what include directives and pragmas change;
* `SymbolTable.take`: what declarations, traits and uses change;
* `follows_of_take`, `follows_of_takeAll`: how a session follows from another one that takes one
  fact, or several.
-/

namespace IncludeAudit

/-- The channels through which facts come. -/
inductive Channel where
  | entries
  /-- Include directives and pragmas, whose order matters to each other. -/
  | text
  | declarations
  | traits
  | uses
  deriving DecidableEq, Repr

namespace Event

/-- The channel of a fact. -/
def channel : Event → Channel
  | .enter _ => .entries
  | .directive _ | .pragma _ => .text
  | .declaration _ => .declarations
  | .traits .. => .traits
  | .use _ => .uses

/-- The file that a fact enters. -/
def entered? : Event → Option FileName
  | .enter f => some f
  | _ => none

/-- The traits that a fact reports of a symbol. -/
def traitsOf? (k : SymbolKey) : Event → Option SymbolTraits
  | .traits j facts => if j = k then some facts else none
  | _ => none

end Event

/-! ## Directives and pragmas -/

/-- What a session knows from include directives and pragmas. -/
structure TextView where
  /-- What reads the patterns of friend pragmas. -/
  patterns : PatternEngine
  graph : IncludeGraph
  overlay : Overlay
  openExports : OrderedMap FileName Nat
  log : DiagnosticLog
  pragmas : FileName → FilePragmas

namespace TextView

/-- The view with other pragmas of a file. -/
def setPragmas (x : TextView) (f : FileName) (p : FilePragmas) : TextView :=
  { x with pragmas := fun g => if g = f then p else x.pragmas g }

/-- The view with a further diagnostic. -/
def report (x : TextView) (d : Diagnostic) : TextView :=
  { x with log := x.log ++ [d] }

/-- The view after an include directive. -/
def recordInclude (x : TextView) (d : IncludeDirective) : TextView :=
  let pragmas := FileRecord.pragmasAfter d (x.pragmas d.includer)
  let overlay := x.overlay.observeInclude d.includer d.included
  if d.isReexport || x.openExports.contains d.includer then
    { x.setPragmas d.includer { pragmas with exported := pragmas.exported.insert d.included } with
      graph := x.graph.add d
      overlay := overlay.addExport d.included d.includer }
  else { x.setPragmas d.includer pragmas with graph := x.graph.add d, overlay }

/-- The view after a pragma that concerns its file. -/
def recordPragma (x : TextView) (f : FileName) (line : Nat) : FilePragma → TextView
  | .privateFile replacement =>
    { x.setPragmas f { x.pragmas f with isPrivate := true } with
      overlay := x.overlay.markPrivate f replacement }
  | .beginExports =>
    if x.openExports.contains f then
      x.report (.unbalancedExports f line "begin_exports inside an open region")
    else { x with openExports := x.openExports.set f line }
  | .endExports =>
    if x.openExports.contains f then { x with openExports := x.openExports.erase f }
    else x.report (.unbalancedExports f line "end_exports without begin_exports")
  | .alwaysKeep => { x with overlay := x.overlay.markAlwaysKeep f }
  | .friend pattern =>
    match x.overlay.addFriend x.patterns f pattern with
    | .ok overlay => { x with overlay }
    | .error e => x.report (.unresolvablePattern pattern e.message)
  | .noInclude g =>
    x.setPragmas f { x.pragmas f with noInclude := (x.pragmas f).noInclude.insert g }
  | .noForwardDeclare symbol =>
    x.setPragmas f
      { x.pragmas f with
        noForwardDeclare :=
          (x.pragmas f).noForwardDeclare.insert (SymbolKey.dropGlobalScope symbol) }

/-- The view after a fact. -/
def take (x : TextView) : Event → TextView
  | .directive d => x.recordInclude d
  | .pragma p => x.recordPragma p.file p.line p.pragma
  | _ => x

end TextView

/-- The table after a fact. -/
def SymbolTable.take (t : SymbolTable) : Event → SymbolTable
  | .declaration d => t.declare d
  | .traits k facts => t.addTraits k facts
  | .use u => t.intern u.symbol
  | _ => t

namespace Session

open FileRecord (collect_ok)

variable {s s' : Session} {f : FileName} {r : FileRecord} {e : Event} {es : List Event}

/-- What a session knows from include directives and pragmas. -/
def text (s : Session) : TextView :=
  ⟨s.environment.patterns, s.graph, s.overlay, s.openExports, s.log,
    fun f => (s.recordOf f).pragmas⟩

/-- How a session follows from another one that takes facts. -/
structure Follows (es : List Event) (s s' : Session) : Prop where
  text : s'.text = es.foldl TextView.take s.text
  table : s'.table = es.foldl SymbolTable.take s.table
  visited : s'.visited = s.visited.insertAll (es.filterMap (·.entered?))
  attributor : s'.attributor = s.attributor
  keepGlobs : s'.keepGlobs = s.keepGlobs
  checkAlso : s'.checkAlso = s.checkAlso

theorem Follows.trans {s₁ : Session} {es' : List Event} (h : Follows es s s₁)
    (h' : Follows es' s₁ s') : Follows (es ++ es') s s' where
  text := by rw [h'.text, h.text, List.foldl_append]
  table := by rw [h'.table, h.table, List.foldl_append]
  visited := by
    rw [h'.visited, h.visited, List.filterMap_append]
    exact (List.foldl_append ..).symm
  attributor := h'.attributor.trans h.attributor
  keepGlobs := h'.keepGlobs.trans h.keepGlobs
  checkAlso := h'.checkAlso.trans h.checkAlso

theorem text_putRecord (s : Session) (f : FileName) (r : FileRecord) :
    (s.putRecord f r).text = s.text.setPragmas f r.pragmas := by
  simp only [text, TextView.setPragmas, recordOf_putRecord, apply_ite]
  rfl

/-- A record with the same pragmas does not change the text. -/
theorem text_putRecord_of_eq (h : r.pragmas = (s.recordOf f).pragmas) :
    (s.putRecord f r).text = s.text := by
  rw [text_putRecord, h]
  simp only [text, TextView.setPragmas, TextView.mk.injEq, true_and]
  funext g
  split
  · rename_i hg
    rw [hg]
  · rfl

/-! ## One lemma for each kind of fact -/

theorem follows_enter (h : s.take (.enter f) = .ok s') : Follows [.enter f] s s' := by
  obtain ⟨-, h⟩ := whenOpen_ok h
  split at h
  · cases h
  · cases h
    exact ⟨text_putRecord_of_eq rfl, rfl, rfl, rfl, rfl, rfl⟩

theorem follows_traits {k : SymbolKey} {facts : SymbolTraits}
    (h : s.take (.traits k facts) = .ok s') : Follows [.traits k facts] s s' := by
  obtain ⟨-, h⟩ := whenOpen_ok h
  cases h
  exact ⟨rfl, rfl, rfl, rfl, rfl, rfl⟩

theorem follows_use {u : Use} (h : s.take (.use u) = .ok s') : Follows [.use u] s s' := by
  obtain ⟨-, h⟩ := whenOpen_ok h
  obtain ⟨r, hr, rfl⟩ := updateRecord_ok h
  obtain ⟨-, rfl⟩ := collect_ok hr
  exact ⟨text_putRecord_of_eq rfl, rfl, rfl, rfl, rfl, rfl⟩

theorem follows_declaration {d : Declaration} (h : s.take (.declaration d) = .ok s') :
    Follows [.declaration d] s s' := by
  obtain ⟨-, h⟩ := whenOpen_ok h
  split at h
  · obtain ⟨r, hr, rfl⟩ := updateRecord_ok h
    obtain ⟨-, rfl⟩ := collect_ok hr
    exact ⟨text_putRecord_of_eq rfl, rfl, rfl, rfl, rfl, rfl⟩
  · cases h
    exact ⟨rfl, rfl, rfl, rfl, rfl, rfl⟩

theorem follows_directive {d : IncludeDirective} (h : s.take (.directive d) = .ok s') :
    Follows [.directive d] s s' := by
  obtain ⟨-, h⟩ := whenOpen_ok h
  obtain ⟨s₁, hs₁, h⟩ := bind_ok h
  obtain ⟨r₁, hr₁, rfl⟩ := updateRecord_ok hs₁
  obtain ⟨-, rfl⟩ := collect_ok hr₁
  split at h
  · rename_i hexported
    obtain ⟨s₂, hs₂, h⟩ := bind_ok h
    obtain ⟨r₂, hr₂, rfl⟩ := updateRecord_ok hs₂
    obtain ⟨-, rfl⟩ := collect_ok hr₂
    cases h
    refine ⟨?_, rfl, rfl, rfl, rfl, rfl⟩
    refine Eq.trans ?_ (if_pos hexported).symm
    simp only [text, TextView.setPragmas, TextView.mk.injEq]
    refine ⟨rfl, rfl, rfl, rfl, rfl, funext fun g => ?_⟩
    have hother (o : Overlay) (t : Session) : recordOf { t with overlay := o } g = t.recordOf g :=
      rfl
    rw [hother, recordOf_putRecord]
    split
    · rw [recordOf_putRecord, if_pos rfl]
      rfl
    · rename_i hg
      rw [recordOf_putRecord, if_neg hg]
      rfl
  · rename_i hexported
    cases h
    refine ⟨?_, rfl, rfl, rfl, rfl, rfl⟩
    refine Eq.trans ?_ (if_neg hexported).symm
    rw [text_putRecord]
    rfl

theorem follows_pragma {p : PragmaNote} (h : s.take (.pragma p) = .ok s') :
    Follows [.pragma p] s s' := by
  obtain ⟨-, h⟩ := whenOpen_ok h
  obtain ⟨f, line, pragma⟩ := p
  cases pragma with
  | privateFile replacement =>
    obtain ⟨r, hr, rfl⟩ := updateRecord_ok h
    obtain ⟨-, rfl⟩ := collect_ok hr
    refine ⟨?_, rfl, rfl, rfl, rfl, rfl⟩
    rw [text_putRecord]
    rfl
  | beginExports =>
    cases h
    unfold beginExports
    split
    · rename_i hopen
      exact ⟨(if_pos hopen).symm, rfl, rfl, rfl, rfl, rfl⟩
    · rename_i hclosed
      exact ⟨(if_neg hclosed).symm, rfl, rfl, rfl, rfl, rfl⟩
  | endExports =>
    cases h
    unfold endExports
    split
    · rename_i hopen
      exact ⟨(if_pos hopen).symm, rfl, rfl, rfl, rfl, rfl⟩
    · rename_i hclosed
      exact ⟨(if_neg hclosed).symm, rfl, rfl, rfl, rfl, rfl⟩
  | alwaysKeep =>
    cases h
    exact ⟨rfl, rfl, rfl, rfl, rfl, rfl⟩
  | friend pattern =>
    cases h
    have htext : s.text.overlay.addFriend s.text.patterns f pattern =
        s.overlay.addFriend s.environment.patterns f pattern := rfl
    unfold addFriend
    split
    · rename_i hrule
      refine ⟨?_, rfl, rfl, rfl, rfl, rfl⟩
      rw [List.foldl_cons, List.foldl_nil, TextView.take]
      simp only [TextView.recordPragma, htext, hrule]
      rfl
    · rename_i hrule
      refine ⟨?_, rfl, rfl, rfl, rfl, rfl⟩
      rw [List.foldl_cons, List.foldl_nil, TextView.take]
      simp only [TextView.recordPragma, htext, hrule]
      rfl
  | noInclude file =>
    obtain ⟨r, hr, rfl⟩ := updateRecord_ok h
    obtain ⟨-, rfl⟩ := collect_ok hr
    refine ⟨?_, rfl, rfl, rfl, rfl, rfl⟩
    rw [text_putRecord]
    rfl
  | noForwardDeclare symbol =>
    obtain ⟨r, hr, rfl⟩ := updateRecord_ok h
    obtain ⟨-, rfl⟩ := collect_ok hr
    refine ⟨?_, rfl, rfl, rfl, rfl, rfl⟩
    rw [text_putRecord]
    rfl

theorem follows_of_take (h : s.take e = .ok s') : Follows [e] s s' := by
  cases e with
  | enter f => exact follows_enter h
  | directive d => exact follows_directive h
  | declaration d => exact follows_declaration h
  | pragma p => exact follows_pragma h
  | traits k facts => exact follows_traits h
  | use u => exact follows_use h

/-- The induction is on the facts. -/
theorem follows_of_takeAll (h : s.takeAll es = .ok s') : Follows es s s' := by
  induction es generalizing s with
  | nil =>
    cases h
    exact ⟨rfl, rfl, rfl, rfl, rfl, rfl⟩
  | cons e es ih =>
    rw [takeAll] at h
    split at h
    · rename_i s₁ hs₁
      exact (follows_of_take hs₁).trans (ih h)
    · cases h

end Session

end IncludeAudit
