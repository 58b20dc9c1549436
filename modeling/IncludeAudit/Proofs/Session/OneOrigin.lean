import IncludeAudit.Proofs.Session.Refusals
import IncludeAudit.Proofs.Session.Reporting
import IncludeAudit.Proofs.Use.Remembering

/-!
# Distances from one file

The uses of a file are attributed with the distances from that file, which are computed once; the
distances from other files are not known then. They are never asked for, since a use is recorded for
the file that it refers to, wherever it is written (`RefersTo`). So the whole graph gives the same
answers, the same error if there is one, and leaves the same session behind (`NeedsOneOrigin`).

* `Attributor.answer_congr`: an answer depends on the distances from one file;
* `replies_congr`, `resolveUses_congr`: so do the answers to all uses of the file;
* `refersTo_afterFacts`: what is recorded;
* `needsOneOrigin`: all sessions.
-/

namespace IncludeAudit

variable {t : SymbolTable} {reach reach' : Reachability} {u : Use} {us : List Use} {f : FileName}
  {g : IncludeGraph}

/-- From its origin, a map has the distances of the graph. -/
theorem DistanceMap.distance_ofGraph : (ofGraph g f).distance f = g.distance f :=
  funext fun _ => if_pos rfl

/-! ## What an answer depends on -/

theorem Attributor.answer_congr (h : reach u.referencingFile = reach' u.referencingFile)
    (a : Attributor) (t : SymbolTable) (usingIsAUse : Bool) :
    a.answer t reach u usingIsAUse = a.answer t reach' u usingIsAUse := by
  have hcandidates : Candidate.ofUse t reach u = Candidate.ofUse t reach' u := by
    simp only [Candidate.ofUse, Candidate.ofSymbol, h]
  simp only [answer, choose, hcandidates]

/-- All uses refer to a file. -/
def RefersTo (us : List Use) (f : FileName) : Prop :=
  ∀ u ∈ us, u.referencingFile = f

/-- The steps that ask for the attribution of uses in turn. -/
def asks (us : List Use) (usingIsAUse : Bool) : List Attributor.Step :=
  us.map fun u => .ask ⟨u, usingIsAUse⟩

theorem Attributor.replies_congr (hus : RefersTo us f) (h : reach f = reach' f) (a : Attributor)
    (usingIsAUse : Bool) :
    replies reach t a (asks us usingIsAUse) = replies reach' t a (asks us usingIsAUse) := by
  induction us generalizing a with
  | nil => rfl
  | cons u us ih =>
    obtain ⟨hu, hus⟩ := List.forall_mem_cons.1 hus
    have hanswer := answer_congr (hu.symm ▸ h) a t usingIsAUse
    simp only [asks, List.map_cons, replies, hanswer]
    exact congrArg _ (ih hus _)

theorem Session.resolveUses_congr (env : Environment) (hus : RefersTo us f) (h : reach f = reach' f)
    (a : Attributor) (r : FileRecord) :
    resolveUses env t reach us a r = resolveUses env t reach' us a r := by
  induction us generalizing a r with
  | nil => rfl
  | cons u us ih =>
    obtain ⟨hu, hus⟩ := List.forall_mem_cons.1 hus
    have hanswer := Attributor.answer_congr (hu.symm ▸ h) a t env.policy.usingIsAUse
    simp only [resolveUses, hanswer, ih hus]

/-! ## Sessions -/

namespace Session

/-- It makes no difference to a file whether the distances from all files are known or only those
from the file: not for the answers of any attributor to its uses, and not when the file is resolved,
whatever was reported before. -/
structure NeedsOneOrigin (s : Session) (f : FileName) : Prop where
  replies (a : Attributor) (usingIsAUse : Bool) :
    Attributor.replies (DistanceMap.ofGraph s.graph f).distance s.table a
        (asks (s.recordOf f).uses usingIsAUse) =
      Attributor.replies s.graph.distance s.table a (asks (s.recordOf f).uses usingIsAUse)
  resolve {t : Session} (h : Progress s t) : t.resolve f = t.resolveWith t.graph.distance f

/-- A use is recorded for the file that it refers to. -/
theorem refersTo_afterFacts (env : Environment) (main : FileName) (es : List Event) (f : FileName) :
    RefersTo (((start env main).afterFacts es).recordOf f).uses f := by
  obtain ⟨taken, htaken, -⟩ := exists_takeAll_afterFacts (open_start env main) es
  intro u hu
  rw [(recorded_of_takeAll htaken).uses] at hu
  obtain ⟨e, -, he⟩ := List.mem_filterMap.1 hu
  cases e with
  | use w =>
    obtain ⟨hfile, hw⟩ := Option.ite_none_right_eq_some.1 he
    exact Option.some.inj hw ▸ hfile
  | _ => cases he

/-- In every session, whatever facts it took, the whole graph gives the uses of a file the answers
that the distances from the file give them. -/
theorem needsOneOrigin (env : Environment) (main : FileName) (es : List Event) (f : FileName) :
    NeedsOneOrigin ((start env main).afterFacts es) f := by
  have hus := refersTo_afterFacts env main es f
  generalize (start env main).afterFacts es = s at hus
  refine ⟨Attributor.replies_congr hus DistanceMap.distance_ofGraph, fun {t} h => ?_⟩
  rw [resolve, resolveWith, resolveWith, transition_resolving]
  by_cases hstate : (t.recordOf f).state = .collecting
  · -- The file has no report yet, so its record is the one of the session.
    rw [if_pos hstate, h.records f hstate]
    dsimp only
    rw [resolveUses_congr t.environment hus DistanceMap.distance_ofGraph]
  · rw [if_neg hstate]

/-! ## A use that is written elsewhere -/

/-- A use of a class in a macro of `m.h`, which is told to concern `f.cc`. The class is defined in
`a.h`. -/
def overriddenUse : List Event :=
  [ .directive ⟨.quoted "f.cc", .quoted "m.h", .line 1, none⟩,
    .directive ⟨.quoted "f.cc", .quoted "a.h", .line 2, none⟩,
    .declaration { symbol := ⟨"S", .record⟩, location := .plain ⟨.quoted "a.h", 3, 1⟩
                   isDefinition := true },
    .use { symbol := ⟨"S", .record⟩, location := .plain ⟨.quoted "m.h", 4, 1⟩
           referencingFile := .quoted "f.cc", hints := { memberAccess := true } } ]

/-- The whole graph resolves it with the same result. -/
theorem needsOneOrigin_overriddenUse :
    ∃ s, s = (start (plainEnvironment {}) (.quoted "f.cc")).afterFacts overriddenUse ∧
      s.resolve (.quoted "f.cc") = s.resolveWith s.graph.distance (.quoted "f.cc") ∧
      ((s.resolve (.quoted "f.cc")).2.recordOf (.quoted "f.cc")).resolved.map (·.attribution) =
        [some ⟨some 0, .quoted "a.h", .nearestDefinition⟩] := by
  refine ⟨_, rfl, (needsOneOrigin _ _ _ _).resolve (.refl _), ?_⟩
  decide +kernel

end Session

end IncludeAudit
