import IncludeAudit.Proofs.Symbol.Growth
import IncludeAudit.Proofs.Use.Claims

/-!
# Remembered answers

An attributor answers from memory where it can, and a table may grow between its answers. A
remembered answer is given for as many declarations of the symbol as there were then; since tables
only grow, these are the same declarations. `ok_eq_fresh` concludes that an attributor which has
answered before answers like a new one.

* `Remembers`: what is true of the memory of an attributor, and stays true as the table grows;
* `answered_answer`: what one answer does;
* `answered_of_mem_replies`: so it is with each answer of a run.
-/

namespace IncludeAudit

/-! ## Answers without memory -/

/-- The attribution of a use with the given candidates. -/
def Candidate.attribution? (cs : List Candidate) : Option Attribution :=
  (Candidate.select cs).map fun (chosen, rule) => ⟨some chosen.id, chosen.declaration.owner, rule⟩

theorem Candidate.attribution?_of_select {cs : List Candidate} {chosen : Candidate}
    {rule : AttributionRule} (h : Candidate.select cs = some (chosen, rule)) :
    Candidate.attribution? cs = some ⟨some chosen.id, chosen.declaration.owner, rule⟩ := by
  rw [attribution?, h, Option.map_some]

/-- A use that is to be attributed, and whether using-declarations settle it. -/
structure Query where
  use : Use
  usingIsAUse : Bool
  deriving DecidableEq, Repr

namespace Query

/-- The attribution by the rules alone. -/
def attribution? (q : Query) (t : SymbolTable) (reach : Reachability) : Option Attribution :=
  (Attributor.usingAnswer? q.use q.usingIsAUse).or
    (Candidate.attribution? (Candidate.ofUse t reach q.use))

/-- The explicit instantiation definitions that the use claims. -/
def claimed (q : Query) (t : SymbolTable) (reach : Reachability) : List Declaration :=
  match Attributor.usingAnswer? q.use q.usingIsAUse with
  | some _ => []
  | none => Candidate.claimed (Candidate.ofUse t reach q.use)

variable {q : Query} {t : SymbolTable} {reach : Reachability}

theorem attribution?_eq (h : Attributor.usingAnswer? q.use q.usingIsAUse = none) :
    q.attribution? t reach = Candidate.attribution? (Candidate.ofUse t reach q.use) := by
  rw [attribution?, h, Option.none_or]

theorem claimed_eq (h : Attributor.usingAnswer? q.use q.usingIsAUse = none) :
    q.claimed t reach = Candidate.claimed (Candidate.ofUse t reach q.use) := by
  rw [claimed, h]

end Query

namespace Attributor

variable {t t' : SymbolTable} {reach : Reachability} {a b : Attributor} {q : Query} {u w : Use}
  {d : Declaration} {known : Attribution} {found : Option Attribution} {e : AnalysisError}
  {result : Except AnalysisError (Option Attribution)}

/-! ## What is remembered -/

/-- What an attributor remembers is right, and it has entered what the uses claim of which it
remembers the answer. No answer is about more declarations than there are. -/
structure Remembers (a : Attributor) (t : SymbolTable) (reach : Reachability) : Prop where
  bounded : ∀ {question known}, a.answers.find? question = some known →
    question.candidates ≤ (t.candidates question.symbol).length
  right : ∀ {u known}, a.answers.find? (Question.ofUse t u) = some known →
    Candidate.attribution? (Candidate.ofUse t reach u) = some known ∧
      ∀ d ∈ Candidate.claimed (Candidate.ofUse t reach u), a.Holds t d

theorem remembers_fresh (t : SymbolTable) (reach : Reachability) :
    ({} : Attributor).Remembers t reach :=
  ⟨nofun, nofun⟩

theorem Holds.extends (h : a.Holds t d) (ht : t'.Extends t) : a.Holds t' d := by
  obtain ⟨first, hfirst, hfile⟩ := h
  obtain ⟨id, hid, hfirst⟩ := Option.bind_eq_some_iff.1 hfirst
  exact ⟨first, Option.bind_eq_some_iff.2 ⟨id, hid, ht.declaration? hfirst⟩, hfile⟩

/-- A question of the grown table that was asked before was asked of the same declarations. -/
theorem Remembers.extends (h : a.Remembers t reach) (ht : t'.Extends t) :
    a.Remembers t' reach where
  bounded hknown := Nat.le_trans (h.bounded hknown) (ht.candidates _).length_le
  right {u known} hknown := by
    have hcandidates : t.candidates u.symbol = t'.candidates u.symbol :=
      (ht.candidates u.symbol).eq_of_length_le (h.bounded hknown)
    have hq : Question.ofUse t u = Question.ofUse t' u := by
      rw [Question.ofUse, Question.ofUse, hcandidates]
    obtain ⟨hattribution, hheld⟩ := h.right (hq ▸ hknown)
    rw [Candidate.ofUse_congr hq hcandidates] at hattribution hheld
    exact ⟨hattribution, fun d hd => (hheld d hd).extends ht⟩

/-! ## One answer -/

/-- What an answer of an attributor says and what it leaves behind. -/
structure Answered (t : SymbolTable) (reach : Reachability) (q : Query) (a : Attributor)
    (result : Except AnalysisError (Option Attribution)) (b : Attributor) : Prop where
  enters : Enters t (· ∈ q.claimed t reach) a b
  remembers : b.Remembers t reach
  ok : ∀ {found}, result = .ok found →
    found = q.attribution? t reach ∧ ∀ d ∈ q.claimed t reach, b.Holds t d
  error : ∀ {e}, result = .error e → ∃ d ∈ q.claimed t reach, ∃ first, b.Conflict t d first ∧
    e = .doubleInstantiation d.symbol.name d.claimKey.2 first.file d.file

/-- What is entered for a use is what it claims. -/
theorem registered_claims {chosen : Candidate} {rule : AttributionRule} (a : Attributor)
    (hindirect : usingAnswer? q.use q.usingIsAUse = none)
    (hselected : Candidate.select (Candidate.ofUse t reach q.use) = some (chosen, rule)) :
    Registered t (· ∈ q.claimed t reach) a
      (a.registerAll t (Candidate.claims chosen (Candidate.ofUse t reach q.use))).1
      (a.registerAll t (Candidate.claims chosen (Candidate.ofUse t reach q.use))).2 :=
  registered_registerAll
    (fun d => by rw [Query.claimed_eq hindirect, Candidate.lists_claims hselected]) a

/-- The memory stays right when the answer to a use is added to it. -/
theorem Remembers.remember (h : b.Remembers t reach)
    (hknown : Candidate.attribution? (Candidate.ofUse t reach u) = some known)
    (hheld : ∀ d ∈ Candidate.claimed (Candidate.ofUse t reach u), b.Holds t d) :
    ({ b with answers := b.answers.set (Question.ofUse t u) known } : Attributor).Remembers
      t reach where
  bounded {question found} hfound := by
    rw [OrderedMap.set, OrderedMap.find?_upsert] at hfound
    split at hfound
    · rename_i heq
      rw [heq]
      exact Nat.le_refl _
    · exact h.bounded hfound
  right {w found} hfound := by
    rw [OrderedMap.set, OrderedMap.find?_upsert] at hfound
    split at hfound
    · rename_i heq
      rw [Candidate.ofUse_congr heq rfl, ← hfound]
      exact ⟨hknown, hheld⟩
    · exact h.right hfound

/-- It stays right when definitions are entered. -/
theorem Remembers.enters {P : Declaration → Prop} (h : a.Remembers t reach) (hab : Enters t P a b)
    (hanswers : b.answers = a.answers) : b.Remembers t reach where
  bounded hknown := h.bounded (hanswers ▸ hknown)
  right hknown := by
    obtain ⟨hattribution, hheld⟩ := h.right (hanswers ▸ hknown)
    exact ⟨hattribution, fun d hd => (hheld d hd).mono hab⟩

/-- The cases are what answering the use gives. Its claims are entered when its answer is found. -/
theorem answered_answer (h : a.Remembers t reach) (q : Query) :
    Answered t reach q a (a.answer t reach q.use q.usingIsAUse).1
      (a.answer t reach q.use q.usingIsAUse).2 := by
  have hgives := gives a t reach q.use q.usingIsAUse
  generalize a.answer t reach q.use q.usingIsAUse = out at hgives
  cases hgives with
  | settled hdirect =>
    have hclaimed : q.claimed t reach = [] := by rw [Query.claimed, hdirect]
    refine ⟨.refl t _ a, h, fun {found} hfound => ?_, nofun⟩
    rw [hclaimed, Query.attribution?, hdirect]
    exact ⟨(Except.ok.inj hfound).symm, List.forall_mem_nil _⟩
  | remembered hindirect hknown =>
    obtain ⟨hattribution, hheld⟩ := h.right hknown
    refine ⟨⟨id, .inl⟩, ⟨h.bounded, h.right⟩, fun {found} hfound => ?_, nofun⟩
    rw [Query.attribution?_eq hindirect, Query.claimed_eq hindirect, hattribution]
    exact ⟨(Except.ok.inj hfound).symm, hheld⟩
  | nothing hindirect hnone =>
    refine ⟨.refl t _ a, h, fun {found} hfound => ?_, nofun⟩
    rw [Query.attribution?_eq hindirect, Query.claimed_eq hindirect, Candidate.attribution?, hnone,
      Candidate.select_eq_none.1 hnone]
    exact ⟨(Except.ok.inj hfound).symm, List.forall_mem_nil _⟩
  | refused hindirect hselected hregistered =>
    have hentered := registered_claims a hindirect hselected
    rw [hregistered] at hentered
    refine ⟨hentered.enters, h.enters hentered.enters hentered.answers, nofun, fun {e} he => ?_⟩
    cases he
    exact hentered.error rfl
  | @found _ _ b hindirect hselected hregistered =>
    have hentered := registered_claims a hindirect hselected
    rw [hregistered] at hentered
    have hheld : ∀ d ∈ q.claimed t reach, b.Holds t d := hentered.ok rfl
    have hknown := Candidate.attribution?_of_select hselected
    refine ⟨⟨hentered.enters.kept, hentered.enters.entered⟩,
      (h.enters hentered.enters hentered.answers).remember hknown
        (Query.claimed_eq hindirect ▸ hheld), fun {found} hfound => ⟨?_, hheld⟩, nofun⟩
    rw [Query.attribution?_eq hindirect, hknown]
    exact (Except.ok.inj hfound).symm

/-- Definitions that one use claims of one specialization are in one file if the use is answered. -/
theorem Answered.file_eq (h : Answered t reach q a result b) (hok : result = .ok found)
    {first : Declaration} (hd : d ∈ q.claimed t reach) (hfirst : first ∈ q.claimed t reach)
    (hkey : d.claimKey = first.claimKey) : d.file = first.file :=
  ((h.ok hok).2 d hd).file_eq ((h.ok hok).2 first hfirst) hkey

/-- The answer of an attributor that has not answered before. -/
def freshAnswer (reach : Reachability) (t : SymbolTable) (q : Query) :
    Except AnalysisError (Option Attribution) :=
  (({} : Attributor).answer t reach q.use q.usingIsAUse).1

/-- A new attributor has nothing that could be in conflict with claims that agree. -/
theorem freshAnswer_eq_ok (h : ∀ d ∈ q.claimed t reach, ∀ first ∈ q.claimed t reach,
    d.claimKey = first.claimKey → d.file = first.file) :
    freshAnswer reach t q = .ok (q.attribution? t reach) := by
  have hanswered := answered_answer (remembers_fresh t reach) q
  cases hresult : freshAnswer reach t q with
  | ok found => rw [(hanswered.ok hresult).1]
  | error e =>
    obtain ⟨d, hd, first, hconflict, -⟩ := hanswered.error hresult
    rcases hanswered.enters.entered hconflict.holder with hnone | ⟨hfirst, hkey⟩
    · cases hnone
    · exact absurd (h d hd first hfirst hkey.symm).symm hconflict.file_ne

/-! ## Runs -/

/-- What happens in a run of one table and one attributor. -/
inductive Step where
  | intern (k : SymbolKey)
  | declare (d : Declaration)
  | addTraits (k : SymbolKey) (traits : SymbolTraits)
  | ask (q : Query)

/-- An answer in a run, with the table as it was then. -/
structure Reply where
  table : SymbolTable
  query : Query
  result : Except AnalysisError (Option Attribution)

/-- The answers of a run, which goes on after errors. -/
def replies (reach : Reachability) (t : SymbolTable) (a : Attributor) : List Step → List Reply
  | [] => []
  | .intern k :: steps => replies reach (t.intern k) a steps
  | .declare d :: steps => replies reach (t.declare d) a steps
  | .addTraits k traits :: steps => replies reach (t.addTraits k traits) a steps
  | .ask q :: steps =>
    let (result, b) := a.answer t reach q.use q.usingIsAUse
    ⟨t, q, result⟩ :: replies reach t b steps

/-- The induction is on the steps. Changes of the table keep the memory right, and so do answers. -/
theorem answered_of_mem_replies {steps : List Step} {reply : Reply} (h : a.Remembers t reach)
    (hreply : reply ∈ replies reach t a steps) :
    ∃ b c, Answered reply.table reach reply.query b reply.result c := by
  induction steps generalizing t a with
  | nil => cases hreply
  | cons step steps ih =>
    cases step with
    | intern k => exact ih (h.extends (t.extends_updateTraits k _)) hreply
    | declare d => exact ih (h.extends (t.extends_declare d)) hreply
    | addTraits k traits => exact ih (h.extends (t.extends_updateTraits k _)) hreply
    | ask q =>
      have hanswered := answered_answer h q
      rcases List.mem_cons.1 hreply with rfl | hreply
      · exact ⟨a, _, hanswered⟩
      · exact ih hanswered.remembers hreply

/-- Whatever was declared and asked before, and in whatever order, an answer without an error is the
one that a new attributor gives on the table as it is then. So it is the same in all runs. -/
theorem ok_eq_fresh {steps : List Step} {reply : Reply}
    (hreply : reply ∈ replies reach t {} steps) (hok : reply.result = .ok found) :
    freshAnswer reach reply.table reply.query = .ok found ∧
      ∀ (t' : SymbolTable) (steps' : List Step), ∀ other ∈ replies reach t' {} steps',
        other.table = reply.table → other.query = reply.query →
          ∀ found', other.result = .ok found' → found' = found := by
  obtain ⟨b, c, hanswered⟩ := answered_of_mem_replies (remembers_fresh t reach) hreply
  obtain ⟨rfl, -⟩ := hanswered.ok hok
  refine ⟨freshAnswer_eq_ok fun d hd first hfirst => hanswered.file_eq hok hd hfirst, ?_⟩
  intro t' steps' other hother htable hquery found' hok'
  obtain ⟨b', c', hanswered'⟩ := answered_of_mem_replies (remembers_fresh t' reach) hother
  rw [(hanswered'.ok hok').1, htable, hquery]

/-! ## A table that grows -/

/-- `f.cc` includes `a.h` and `b.h`. -/
def twoHeaders : IncludeGraph where
  directives := [⟨.quoted "f.cc", .quoted "a.h", .line 1, none⟩,
    ⟨.quoted "f.cc", .quoted "b.h", .line 2, none⟩]

/-- A use of a class in `f.cc`. -/
def classQuery : Query where
  use := { symbol := ⟨"S", .record⟩, location := .plain ⟨.quoted "f.cc", 9, 1⟩ }
  usingIsAUse := false

/-- Asks for the class, which is declared in `b.h`, and twice more after it is defined in `a.h`. -/
def definitionFound : List Step :=
  [.declare { symbol := ⟨"S", .record⟩, location := .plain ⟨.quoted "b.h", 3, 1⟩ },
    .ask classQuery,
    .declare { symbol := ⟨"S", .record⟩, location := .plain ⟨.quoted "a.h", 3, 1⟩
               isDefinition := true },
    .ask classQuery,
    .ask classQuery]

/-- The last answer is remembered, and it is the one that a new attributor gives. -/
theorem ok_eq_fresh_definitionFound :
    ∃ reply, (replies twoHeaders.distance (.empty []) {} definitionFound)[2]? = some reply ∧
      reply.result = .ok (some ⟨some 1, .quoted "a.h", .nearestDefinition⟩) ∧
      freshAnswer twoHeaders.distance reply.table reply.query =
        .ok (some ⟨some 1, .quoted "a.h", .nearestDefinition⟩) := by
  obtain ⟨reply, hreply⟩ : ∃ reply,
      (replies twoHeaders.distance (.empty []) {} definitionFound)[2]? = some reply := ⟨_, rfl⟩
  have hfound : (replies twoHeaders.distance (.empty []) {} definitionFound)[2]?.map
      (·.result.toOption) = some (some (some ⟨some 1, .quoted "a.h", .nearestDefinition⟩)) := by
    decide +kernel
  rw [hreply, Option.map_some, Option.some.injEq] at hfound
  have hok : reply.result = .ok (some ⟨some 1, .quoted "a.h", .nearestDefinition⟩) := by
    cases hresult : reply.result with
    | error e => simp [hresult, Except.toOption] at hfound
    | ok found => simpa [hresult, Except.toOption] using hfound
  exact ⟨reply, hreply, hok, (ok_eq_fresh (List.mem_of_getElem? hreply) hok).1⟩

end Attributor

end IncludeAudit
