import IncludeAudit.Engine.Standard
import IncludeAudit.Proofs.Session.Taking
import Mathlib.Data.List.Basic

/-!
# What a session records

A session that took facts has their directives, uses and forward declarations in the records of
their files, in order, and their declarations and symbols in its table (`Recorded`).

* `recorded_start`, `Recorded.take`: a new session, and one more fact;
* `recorded_of_takeAll`: all facts.
-/

namespace IncludeAudit

/-- The uses that concern a file. -/
def usesIn (f : FileName) (es : List Event) : List Use :=
  es.filterMap (·.useIn? f)

/-- The include directives in a file. -/
def directivesIn (f : FileName) (es : List Event) : List IncludeDirective :=
  es.filterMap (·.directiveIn? f)

/-- The hand-written declarations in a file. -/
def forwardsIn (f : FileName) (es : List Event) : List Declaration :=
  es.filterMap (·.forwardIn? f)

namespace Session

/-- The environment without mappings. -/
def plainEnvironment (policy : Policy) : Environment :=
  ⟨.empty, policy, {}, .standard⟩

/-- The session has the facts. -/
structure Recorded (env : Environment) (main : FileName) (es : List Event) (s : Session) :
    Prop where
  environment : s.environment = env
  mainFile : s.mainFile = main
  finished : s.finished = false
  declarations : s.table.declarations = es.filterMap (·.declaration?)
  symbols : ∀ e ∈ es, ∀ k, e.symbol? = some k → (s.table.find? k).isSome = true
  file : ∀ f, (s.recordOf f).file = f
  state : ∀ f, (s.recordOf f).state = .collecting
  resolved : ∀ f, (s.recordOf f).resolved = []
  includes : ∀ f, (s.recordOf f).includes = directivesIn f es
  uses : ∀ f, (s.recordOf f).uses = usesIn f es
  forwardKnown : ∀ f, ∀ id ∈ (s.recordOf f).forwardDecls, id < s.table.declarationCount
  forward : ∀ f, (s.recordOf f).forwardDecls.filterMap s.table.declaration? = forwardsIn f es
  associated : ∀ f, ∀ h ∈ (s.recordOf f).pragmas.associated, h ∈ (s.recordOf f).present
  banned : ∀ f name, name ∈ (s.recordOf f).pragmas.noForwardDeclare ↔
    ∃ e ∈ es, e.bannedIn? f = some name

variable {env : Environment} {main f : FileName} {e : Event} {es es' : List Event}
  {s s' : Session}

theorem recordOf_start (env : Environment) (main f : FileName) :
    (start env main).recordOf f = .ofFile f := by
  simp only [recordOf, start, OrderedMap.set, OrderedMap.find?_upsert]
  split
  · rename_i h
    rw [h]
    rfl
  · rfl

theorem recorded_start (env : Environment) (main : FileName) :
    Recorded env main [] (start env main) where
  environment := rfl
  mainFile := rfl
  finished := rfl
  declarations := rfl
  symbols e he := absurd he List.not_mem_nil
  file f := by rw [recordOf_start]; rfl
  state f := by rw [recordOf_start]; rfl
  resolved f := by rw [recordOf_start]; rfl
  includes f := by rw [recordOf_start]; rfl
  uses f := by rw [recordOf_start]; rfl
  forwardKnown f id hid := by rw [recordOf_start] at hid; exact absurd hid List.not_mem_nil
  forward f := by rw [recordOf_start]; rfl
  associated f h hh := by rw [recordOf_start] at hh; exact absurd hh OrderedSet.not_mem_empty
  banned f name := by
    rw [recordOf_start]
    exact iff_of_false OrderedSet.not_mem_empty fun ⟨_, he, _⟩ => absurd he List.not_mem_nil

/-- The declarations that are found after one more fact. -/
theorem declarations_of_forwardDecls (h : Recorded env main es s) (hl : Learns e s s')
    (f : FileName) : (s'.recordOf f).forwardDecls.filterMap s'.table.declaration? =
      forwardsIn f es ++ (e.forwardIn? f).toList := by
  have hold : (s.recordOf f).forwardDecls.filterMap s'.table.declaration? = forwardsIn f es := by
    rw [← h.forward f]
    refine List.filterMap_congr fun id hid => ?_
    rw [SymbolTable.declaration?, hl.declarations]
    exact List.getElem?_append_left (h.forwardKnown f id hid)
  rw [(hl.records f).forwardDecls, List.filterMap_append, hold]
  cases e with
  | declaration d =>
    have hnew : s'.table.declaration? s.table.declarationCount = some d := by
      rw [SymbolTable.declaration?, hl.declarations]
      exact List.getElem?_concat_length
    by_cases hf : (d.isForward && d.file == f) = true
    · simp [Event.declaresIn, Event.forwardIn?, hf, hnew]
    · simp [Event.declaresIn, Event.forwardIn?, hf]
  | _ => rfl

namespace Recorded

/-- One more fact. -/
theorem take (h : Recorded env main es s) (ht : s.take e = .ok s') :
    Recorded env main (es ++ [e]) s' := by
  have hl := take_spec ht
  have hlast : ∀ {β : Type} (p : Event → Option β),
      (es ++ [e]).filterMap p = es.filterMap p ++ (p e).toList := by
    intro β p
    rw [List.filterMap_append]
    cases hp : p e <;> simp [hp]
  have hcount : s'.table.declarationCount =
      s.table.declarationCount + e.declaration?.toList.length := by
    simp only [SymbolTable.declarationCount, hl.declarations, List.length_append]
  have hpresent : ∀ f, ∀ d ∈ (s'.recordOf f).includes, d.included ∈ (s'.recordOf f).present :=
    fun f d hd => OrderedSet.mem_ofList.2 (List.mem_map_of_mem hd)
  exact
  { environment := hl.environment.trans h.environment
    mainFile := hl.mainFile.trans h.mainFile
    finished := hl.finished
    declarations := by rw [hl.declarations, h.declarations, hlast]
    symbols := by
      intro e' he' k hk
      rcases List.mem_append.1 he' with he' | he'
      · exact hl.symbols k (.inl (h.symbols e' he' k hk))
      · obtain rfl := List.mem_singleton.1 he'
        exact hl.symbols k (.inr hk)
    file := fun f => (hl.records f).file.trans (h.file f)
    state := fun f => (hl.records f).state.trans (h.state f)
    resolved := fun f => (hl.records f).resolved.trans (h.resolved f)
    includes := fun f => by
      rw [(hl.records f).includes, h.includes, directivesIn, directivesIn, hlast]
    uses := fun f => by rw [(hl.records f).uses, h.uses, usesIn, usesIn, hlast]
    forwardKnown := by
      intro f id hid
      rw [(hl.records f).forwardDecls, List.mem_append] at hid
      rw [hcount]
      rcases hid with hid | hid
      · exact Nat.lt_add_right _ (h.forwardKnown f id hid)
      · cases e with
        | declaration d =>
          split at hid
          · obtain rfl := List.mem_singleton.1 hid
            exact Nat.lt_succ_self _
          · cases hid
        | _ => cases hid
    forward := fun f => by
      rw [declarations_of_forwardDecls h hl, forwardsIn, forwardsIn, hlast]
    banned := fun f name => by
      rw [(hl.records f).banned, h.banned]
      simp [or_and_right, exists_or]
    associated := by
      intro f k hk
      rcases (hl.records f).associated k hk with hk | ⟨d, hd, rfl⟩
      · obtain ⟨d, hd, rfl⟩ := List.mem_map.1 (OrderedSet.mem_ofList.1 (h.associated f k hk))
        exact hpresent f d (by rw [(hl.records f).includes]; exact List.mem_append_left _ hd)
      · exact hpresent f d (by
          rw [(hl.records f).includes]
          exact List.mem_append_right _ (Option.mem_toList.2 hd)) }

/-- More facts. The induction is on these; those that were taken before are carried along. -/
theorem takeAll (h : Recorded env main es s) (ht : s.takeAll es' = .ok s') :
    Recorded env main (es ++ es') s' := by
  induction es' generalizing es s with
  | nil =>
    cases ht
    rwa [List.append_nil]
  | cons e es' ih =>
    rw [Session.takeAll] at ht
    split at ht
    · rename_i s₁ hs₁
      have h₁ := ih (h.take hs₁) ht
      rwa [List.append_assoc] at h₁
    · cases ht

end Recorded

theorem recorded_of_takeAll (h : (start env main).takeAll es = .ok s) : Recorded env main es s :=
  (recorded_start env main).takeAll h

end Session

end IncludeAudit
