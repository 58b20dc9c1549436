import IncludeAudit.Proofs.FileRecord
import IncludeAudit.Proofs.General
import IncludeAudit.Session.Basic

/-!
# What one fact changes

`take_spec` says once what a session learns from a fact: each record gets what the fact says of its
file and nothing else, the table grows, and everything else that a report depends on stays.

* `RecordLearns`: what the record of one file learns;
* `Learns`: what the session learns.
-/

namespace IncludeAudit

namespace Event

/-- The include directive of a fact, if it stands in the file. -/
def directiveIn? (f : FileName) : Event → Option IncludeDirective
  | .directive d => if d.includer = f then some d else none
  | _ => none

/-- The use of a fact, if it concerns the file. -/
def useIn? (f : FileName) : Event → Option Use
  | .use u => if u.referencingFile = f then some u else none
  | _ => none

/-- The declaration of a fact. -/
def declaration? : Event → Option Declaration
  | .declaration d => some d
  | _ => none

/-- True of a forward declaration in the file. -/
def declaresIn (f : FileName) : Event → Bool
  | .declaration d => d.isForward && d.file == f
  | _ => false

/-- The hand-written declaration of a fact, if it stands in the file. -/
def forwardIn? (f : FileName) : Event → Option Declaration
  | .declaration d => if d.isForward && d.file == f then some d else none
  | _ => none

theorem forwardIn?_eq_none {f : FileName} {e : Event} :
    e.forwardIn? f = none ↔ e.declaresIn f = false := by
  cases e with
  | declaration d => simp [forwardIn?, declaresIn]
  | _ => simp [forwardIn?, declaresIn]

/-- The name of the symbol that must not be declared, if a fact says so of the file. -/
def bannedIn? (f : FileName) : Event → Option String
  | .pragma ⟨g, _, .noForwardDeclare symbol⟩ =>
    if g = f then some (SymbolKey.dropGlobalScope symbol) else none
  | _ => none

/-- The symbol that a fact enters. -/
def symbol? : Event → Option SymbolKey
  | .declaration d => some d.symbol
  | .traits k _ => some k
  | .use u => some u.symbol
  | _ => none

end Event

namespace Session

open FileRecord (collect_ok)

/-- What the record of a file learns from a fact. The fact is a declaration with the given index if
it is one. -/
structure RecordLearns (e : Event) (id : DeclId) (f : FileName) (r r' : FileRecord) : Prop where
  file : r'.file = r.file
  state : r'.state = r.state
  resolved : r'.resolved = r.resolved
  includes : r'.includes = r.includes ++ (e.directiveIn? f).toList
  uses : r'.uses = r.uses ++ (e.useIn? f).toList
  forwardDecls : r'.forwardDecls = r.forwardDecls ++ if e.declaresIn f then [id] else []
  associated : ∀ h ∈ r'.pragmas.associated, h ∈ r.pragmas.associated ∨
    ∃ d ∈ e.directiveIn? f, d.included = h
  banned : ∀ name, name ∈ r'.pragmas.noForwardDeclare ↔
    name ∈ r.pragmas.noForwardDeclare ∨ e.bannedIn? f = some name

/-- What a session learns from a fact. -/
structure Learns (e : Event) (s s' : Session) : Prop where
  environment : s'.environment = s.environment
  mainFile : s'.mainFile = s.mainFile
  finished : s'.finished = false
  declarations : s'.table.declarations = s.table.declarations ++ e.declaration?.toList
  symbols : ∀ k, (s.table.find? k).isSome = true ∨ e.symbol? = some k →
    (s'.table.find? k).isSome = true
  records : ∀ f, RecordLearns e s.table.declarationCount f (s.recordOf f) (s'.recordOf f)

variable {s s' : Session} {f g : FileName} {r r' : FileRecord} {e : Event} {id : DeclId}

/-! ## Operations -/

theorem whenOpen_ok {next : Except AnalysisError Session} (h : s.whenOpen next = .ok s') :
    s.finished = false ∧ next = .ok s' := by
  unfold whenOpen at h
  split at h
  · cases h
  · rename_i hf
    exact ⟨by simpa using hf, h⟩

theorem updateRecord_ok {change : FileRecord → Except AnalysisError FileRecord}
    (h : s.updateRecord f change = .ok s') :
    ∃ r, change (s.recordOf f) = .ok r ∧ s' = s.putRecord f r := by
  unfold updateRecord at h
  cases hc : change (s.recordOf f) with
  | error => simp [hc, Except.map] at h
  | ok r =>
    refine ⟨r, rfl, ?_⟩
    simpa [hc, Except.map] using h.symm

theorem recordOf_putRecord (s : Session) (f g : FileName) (r : FileRecord) :
    (s.putRecord f r).recordOf g = if g = f then r else s.recordOf g := by
  simp only [recordOf, putRecord, OrderedMap.set, OrderedMap.find?_upsert]
  split <;> rfl

theorem record?_putRecord (s : Session) (f : FileName) (r : FileRecord) :
    (s.putRecord f r).record? f = .ok r := by
  simp only [record?, putRecord, OrderedMap.set, OrderedMap.find?_upsert, if_pos]

theorem recordOf_of_record? (h : s.record? f = .ok r) : s.recordOf f = r := by
  unfold record? at h
  split at h
  · rename_i r' hr
    cases h
    rw [recordOf, hr, Option.getD_some]
  · cases h

/-! ## Records -/

/-- A fact that says nothing of a file. -/
structure Spares (e : Event) (f : FileName) : Prop where
  directive : e.directiveIn? f = none
  use : e.useIn? f = none
  declares : e.declaresIn f = false
  bans : e.bannedIn? f = none

/-- What a record keeps that learns about pragmas only. -/
structure SameFacts (r r' : FileRecord) : Prop where
  file : r'.file = r.file
  state : r'.state = r.state
  resolved : r'.resolved = r.resolved
  includes : r'.includes = r.includes
  uses : r'.uses = r.uses
  forwardDecls : r'.forwardDecls = r.forwardDecls
  associated : r'.pragmas.associated = r.pragmas.associated
  banned : r'.pragmas.noForwardDeclare = r.pragmas.noForwardDeclare

theorem SameFacts.refl (r : FileRecord) : SameFacts r r :=
  ⟨rfl, rfl, rfl, rfl, rfl, rfl, rfl, rfl⟩

theorem Spares.learns (h : Spares e f) (hr : SameFacts r r') : RecordLearns e id f r r' where
  file := hr.file
  state := hr.state
  resolved := hr.resolved
  includes := by simp [h.directive, hr.includes]
  uses := by simp [h.use, hr.uses]
  forwardDecls := by simp [h.declares, hr.forwardDecls]
  associated := fun k hk => .inl (hr.associated ▸ hk)
  banned name := by simp [h.bans, hr.banned]

theorem RecordLearns.trans_sameFacts {r'' : FileRecord} (h : RecordLearns e id f r r')
    (hr : SameFacts r' r'') : RecordLearns e id f r r'' where
  file := hr.file.trans h.file
  state := hr.state.trans h.state
  resolved := hr.resolved.trans h.resolved
  includes := hr.includes.trans h.includes
  uses := hr.uses.trans h.uses
  forwardDecls := hr.forwardDecls.trans h.forwardDecls
  associated := fun k hk => h.associated k (hr.associated ▸ hk)
  banned name := by rw [hr.banned, h.banned]

/-- The records after that of a file is written, if the fact concerns no other. -/
theorem recordLearns_of_write (hw : ∀ g, s'.recordOf g = if g = f then r else s.recordOf g)
    (hr : RecordLearns e id f (s.recordOf f) r) (ho : ∀ g, g ≠ f → Spares e g) (g : FileName) :
    RecordLearns e id g (s.recordOf g) (s'.recordOf g) := by
  rw [hw]
  split
  · rename_i hg
    subst hg
    exact hr
  · rename_i hg
    exact (ho g hg).learns (.refl _)

/-- A change to a record that keeps the facts in it changes nothing of what was learned. -/
theorem Learns.update {s₀ : Session} {change : FileRecord → Except AnalysisError FileRecord}
    (h₀ : Learns e s s₀) (hchange : ∀ r r', change r = .ok r' → SameFacts r r')
    (h : s₀.updateRecord f change = .ok s') : Learns e s s' := by
  obtain ⟨r, hr, rfl⟩ := updateRecord_ok h
  refine ⟨h₀.environment, h₀.mainFile, h₀.finished, h₀.declarations, h₀.symbols, fun g => ?_⟩
  rw [recordOf_putRecord]
  split
  · rename_i hg
    subst hg
    exact (h₀.records g).trans_sameFacts (hchange _ _ hr)
  · exact h₀.records g

/-! ## One lemma for each kind of fact -/

theorem enter_spec (h : s.take (.enter f) = .ok s') : Learns (.enter f) s s' := by
  obtain ⟨hopen, h⟩ := whenOpen_ok h
  have hspares : ∀ g, Spares (.enter f) g := fun g => ⟨rfl, rfl, rfl, rfl⟩
  split at h
  · cases h
  · cases h
    exact ⟨rfl, rfl, hopen, (List.append_nil _).symm, fun k hk => hk.resolve_right nofun,
      recordLearns_of_write (fun g => recordOf_putRecord _ f g _) ((hspares f).learns (.refl _))
        fun g _ => hspares g⟩

theorem traits_spec {k : SymbolKey} {facts : SymbolTraits} (h : s.take (.traits k facts) = .ok s') :
    Learns (.traits k facts) s s' := by
  obtain ⟨hopen, h⟩ := whenOpen_ok h
  cases h
  exact ⟨rfl, rfl, hopen, (List.append_nil _).symm,
    fun j hj => SymbolTable.find?_updateTraits _ _ _ _ (hj.imp id fun e => (Option.some.inj e).symm),
    fun g => Spares.learns ⟨rfl, rfl, rfl, rfl⟩ (.refl _)⟩

theorem use_spec {u : Use} (h : s.take (.use u) = .ok s') : Learns (.use u) s s' := by
  obtain ⟨hopen, h⟩ := whenOpen_ok h
  obtain ⟨r, hr, rfl⟩ := updateRecord_ok h
  obtain ⟨-, rfl⟩ := collect_ok hr
  refine ⟨rfl, rfl, hopen, (List.append_nil _).symm,
    fun j hj => SymbolTable.find?_updateTraits _ _ _ _ (hj.imp id fun e => (Option.some.inj e).symm),
    recordLearns_of_write (fun g => recordOf_putRecord _ _ g _)
      ⟨rfl, rfl, rfl, ?_, ?_, ?_, fun k hk => .inl hk, fun _ => (or_iff_left nofun).symm⟩
      fun g hg => ⟨rfl, ?_, rfl, rfl⟩⟩
  · simp [Event.directiveIn?, recordOf]
  · simp [Event.useIn?, recordOf]
  · simp [Event.declaresIn, recordOf]
  · simp [Event.useIn?, Ne.symm hg]

theorem declaration_spec {d : Declaration} (h : s.take (.declaration d) = .ok s') :
    Learns (.declaration d) s s' := by
  obtain ⟨hopen, h⟩ := whenOpen_ok h
  have hsymbols : ∀ j, (s.table.find? j).isSome = true ∨
      (Event.declaration d).symbol? = some j → ((s.table.declare d).find? j).isSome = true :=
    fun j hj => SymbolTable.find?_updateTraits _ _ _ _ (hj.imp id fun e => (Option.some.inj e).symm)
  split at h
  · rename_i hforward
    obtain ⟨r, hr, rfl⟩ := updateRecord_ok h
    obtain ⟨-, rfl⟩ := collect_ok hr
    refine ⟨rfl, rfl, hopen, rfl, hsymbols,
      recordLearns_of_write (fun g => recordOf_putRecord _ _ g _)
        ⟨rfl, rfl, rfl, ?_, ?_, ?_, fun k hk => .inl hk, fun _ => (or_iff_left nofun).symm⟩
        fun g hg => ⟨rfl, rfl, ?_, rfl⟩⟩
    · simp [Event.directiveIn?, recordOf]
    · simp [Event.useIn?, recordOf]
    · simp [Event.declaresIn, recordOf, hforward]
    · simp [Event.declaresIn, Ne.symm hg]
  · rename_i hforward
    cases h
    exact ⟨rfl, rfl, hopen, rfl, hsymbols,
      fun g => Spares.learns ⟨rfl, rfl, by simp [Event.declaresIn, hforward], rfl⟩ (.refl _)⟩

theorem pragmasAfter_associated (d : IncludeDirective) (p : FilePragmas) :
    (FileRecord.pragmasAfter d p).associated =
      if d.pragma = some .associated then p.associated.insert d.included else p.associated := by
  unfold FileRecord.pragmasAfter
  split <;> simp_all

theorem associated_pragmasAfter {d : IncludeDirective} {p : FilePragmas} {k : FileName}
    (hk : k ∈ (FileRecord.pragmasAfter d p).associated) : k ∈ p.associated ∨ d.included = k := by
  rw [pragmasAfter_associated] at hk
  split at hk
  · exact (OrderedSet.mem_insert.1 hk).imp id Eq.symm
  · exact .inl hk

theorem noForwardDeclare_pragmasAfter (d : IncludeDirective) (p : FilePragmas) :
    (FileRecord.pragmasAfter d p).noForwardDeclare = p.noForwardDeclare := by
  unfold FileRecord.pragmasAfter
  split <;> rfl

theorem directive_spec {d : IncludeDirective} (h : s.take (.directive d) = .ok s') :
    Learns (.directive d) s s' := by
  obtain ⟨hopen, h⟩ := whenOpen_ok h
  obtain ⟨s₁, hs₁, h⟩ := bind_ok h
  have hlearns : Learns (.directive d) s s₁ := by
    obtain ⟨r, hr, rfl⟩ := updateRecord_ok hs₁
    obtain ⟨-, rfl⟩ := collect_ok hr
    refine ⟨rfl, rfl, hopen, (List.append_nil _).symm, fun k hk => hk.resolve_right nofun,
      recordLearns_of_write (fun g => recordOf_putRecord _ _ g _)
        ⟨rfl, rfl, rfl, ?_, ?_, ?_, fun k hk => ?_, fun name => ?_⟩
        fun g hg => ⟨?_, rfl, rfl, rfl⟩⟩
    · simp [Event.directiveIn?, recordOf]
    · simp [Event.useIn?, recordOf]
    · simp [Event.declaresIn, recordOf]
    · simpa [Event.directiveIn?, recordOf] using associated_pragmasAfter hk
    · rw [noForwardDeclare_pragmasAfter]
      exact (or_iff_left (Option.some_ne_none name).symm).symm
    · simp [Event.directiveIn?, Ne.symm hg]
  split at h
  · obtain ⟨s₂, hs₂, h⟩ := bind_ok h
    cases h
    have hexported := hlearns.update (fun r r' hr => by
      obtain ⟨-, rfl⟩ := collect_ok hr
      exact ⟨rfl, rfl, rfl, rfl, rfl, rfl, rfl, rfl⟩) hs₂
    exact ⟨hexported.environment, hexported.mainFile, hexported.finished, hexported.declarations,
      hexported.symbols, hexported.records⟩
  · cases h
    exact hlearns

/-- A pragma that leaves all records as they are. -/
theorem pragma_keeps {p : PragmaNote} (hopen : s'.finished = false)
    (he : s'.environment = s.environment) (hm : s'.mainFile = s.mainFile) (ht : s'.table = s.table)
    (hf : s'.files = s.files) (hb : ∀ g, (Event.pragma p).bannedIn? g = none) :
    Learns (.pragma p) s s' where
  environment := he
  mainFile := hm
  finished := hopen
  declarations := by rw [ht]; exact (List.append_nil _).symm
  symbols k hk := by rw [ht]; exact hk.resolve_right nofun
  records g := by
    have hg : s'.recordOf g = s.recordOf g := by simp only [recordOf, hf]
    rw [hg]
    exact Spares.learns ⟨rfl, rfl, rfl, hb g⟩ (.refl _)

theorem ban_spec {line : Nat} {symbol : String}
    (h : s.updateRecord f (·.addNoForwardDeclare symbol) = .ok s') (hopen : s.finished = false) :
    Learns (.pragma ⟨f, line, .noForwardDeclare symbol⟩) s s' := by
  obtain ⟨r, hr, rfl⟩ := updateRecord_ok h
  obtain ⟨-, rfl⟩ := collect_ok hr
  refine ⟨rfl, rfl, hopen, (List.append_nil _).symm, fun k hk => hk.resolve_right nofun,
    recordLearns_of_write (fun g => recordOf_putRecord _ _ g _)
      ⟨rfl, rfl, rfl, (List.append_nil _).symm, (List.append_nil _).symm,
        (List.append_nil _).symm, fun k hk => .inl hk, fun name => ?_⟩
      fun g hg => ⟨rfl, rfl, rfl, ?_⟩⟩
  · rw [OrderedSet.mem_insert]
    simp [Event.bannedIn?, eq_comm]
  · simp [Event.bannedIn?, Ne.symm hg]

theorem pragma_spec {p : PragmaNote} (h : s.take (.pragma p) = .ok s') :
    Learns (.pragma p) s s' := by
  obtain ⟨hopen, h⟩ := whenOpen_ok h
  obtain ⟨f, line, pragma⟩ := p
  cases pragma with
  | privateFile replacement =>
    refine Learns.update ?_ (fun r r' hr => ?_) h
    · exact pragma_keeps hopen rfl rfl rfl rfl fun _ => rfl
    · obtain ⟨-, rfl⟩ := collect_ok hr
      exact ⟨rfl, rfl, rfl, rfl, rfl, rfl, rfl, rfl⟩
  | beginExports =>
    cases h
    unfold beginExports
    split <;> exact pragma_keeps hopen rfl rfl rfl rfl fun _ => rfl
  | endExports =>
    cases h
    unfold endExports
    split <;> exact pragma_keeps hopen rfl rfl rfl rfl fun _ => rfl
  | alwaysKeep =>
    cases h
    exact pragma_keeps hopen rfl rfl rfl rfl fun _ => rfl
  | friend pattern =>
    cases h
    unfold addFriend
    split <;> exact pragma_keeps hopen rfl rfl rfl rfl fun _ => rfl
  | noInclude file =>
    refine Learns.update ?_ (fun r r' hr => ?_) h
    · exact pragma_keeps hopen rfl rfl rfl rfl fun _ => rfl
    · obtain ⟨-, rfl⟩ := collect_ok hr
      exact ⟨rfl, rfl, rfl, rfl, rfl, rfl, rfl, rfl⟩
  | noForwardDeclare symbol => exact ban_spec h hopen

theorem take_spec (h : s.take e = .ok s') : Learns e s s' := by
  cases e with
  | enter f => exact enter_spec h
  | directive d => exact directive_spec h
  | declaration d => exact declaration_spec h
  | pragma p => exact pragma_spec h
  | traits k facts => exact traits_spec h
  | use u => exact use_spec h

end Session

end IncludeAudit
