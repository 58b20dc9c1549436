import IncludeAudit.Use.Attribution

/-!
# Registered instantiations

An attributor enters the explicit instantiation definitions that a use claims, one after the other.
The first definition of a specialization holds it from then on; a later one has to be in the same
file. So what is entered is described by who holds what:

* `registers`: what entering one definition does;
* `enters_registerAll`: no holder is replaced, and a new one is among the definitions entered;
* `holds_of_registerAll`: all definitions are held if there is no error;
* `conflict_of_registerAll`: an error is about a definition whose specialization another file holds;
* `registered_registerAll`: all this of definitions with a property;
* `gives`: what answering a use does.
-/

namespace IncludeAudit

/-- The specialization that an explicit instantiation claims. Without template arguments it is the
one with empty ones. -/
def Declaration.claimKey (d : Declaration) : SymbolKey × String :=
  (d.symbol, d.specialization.getD "")

/-- True of the declarations whose indices are in a list. -/
def SymbolTable.Lists (t : SymbolTable) (ids : List DeclId) (d : Declaration) : Prop :=
  ∃ id ∈ ids, t.declaration? id = some d

namespace Attributor

variable {t : SymbolTable} {a b c : Attributor} {id : DeclId} {ids : List DeclId}
  {d first : Declaration} {key : SymbolKey × String} {e : AnalysisError}

/-- The definition that was entered first for a specialization. -/
def holder? (a : Attributor) (t : SymbolTable) (key : SymbolKey × String) : Option Declaration :=
  (a.instantiations.find? key).bind t.declaration?

theorem holder?_fresh : ({} : Attributor).holder? t key = none :=
  rfl

/-- True of a definition in the file that holds its specialization. -/
def Holds (a : Attributor) (t : SymbolTable) (d : Declaration) : Prop :=
  ∃ first, a.holder? t d.claimKey = some first ∧ first.file = d.file

/-- A definition and the one that holds its specialization, in another file. -/
structure Conflict (a : Attributor) (t : SymbolTable) (d first : Declaration) : Prop where
  holder : a.holder? t d.claimKey = some first
  file_ne : first.file ≠ d.file

/-- How one attributor follows from another by entering some of the definitions with a property. -/
structure Enters (t : SymbolTable) (P : Declaration → Prop) (a b : Attributor) : Prop where
  kept : ∀ {key first}, a.holder? t key = some first → b.holder? t key = some first
  entered : ∀ {key first}, b.holder? t key = some first →
    a.holder? t key = some first ∨ P first ∧ first.claimKey = key

theorem Enters.refl (t : SymbolTable) (P : Declaration → Prop) (a : Attributor) : Enters t P a a :=
  ⟨id, .inl⟩

/-- What was entered in two steps was entered in one of them. -/
theorem Enters.trans {P Q R : Declaration → Prop} (hab : Enters t P a b) (hbc : Enters t Q b c)
    (hP : ∀ d, P d → R d) (hQ : ∀ d, Q d → R d) : Enters t R a c where
  kept hkey := hbc.kept (hab.kept hkey)
  entered hkey := by
    rcases hbc.entered hkey with hb | ⟨hfirst, hkey⟩
    · exact (hab.entered hb).imp_right fun ⟨hfirst, hkey⟩ => ⟨hP _ hfirst, hkey⟩
    · exact .inr ⟨hQ _ hfirst, hkey⟩

theorem Holds.mono {P : Declaration → Prop} (h : a.Holds t d) (hab : Enters t P a b) :
    b.Holds t d := by
  obtain ⟨first, hfirst, hfile⟩ := h
  exact ⟨first, hab.kept hfirst, hfile⟩

/-- Definitions of one specialization that are held are in one file. -/
theorem Holds.file_eq (hd : a.Holds t d) (hfirst : a.Holds t first)
    (hkey : d.claimKey = first.claimKey) : d.file = first.file := by
  obtain ⟨x, hx, hxd⟩ := hd
  obtain ⟨y, hy, hyf⟩ := hfirst
  rw [hkey, hy] at hx
  rw [← hxd, ← hyf, Option.some.inj hx]

/-! ## One definition -/

/-- What entering a definition does. -/
inductive Registers (a : Attributor) (t : SymbolTable) (id : DeclId) :
    Except AnalysisError Attributor → Prop where
  /-- There is no such definition. -/
  | unknown (absent : t.declaration? id = none) : Registers a t id (.ok a)
  /-- No file holds its specialization. -/
  | free {d : Declaration} (declared : t.declaration? id = some d)
    (holder : a.holder? t d.claimKey = none) :
    Registers a t id (.ok { a with instantiations := a.instantiations.set d.claimKey id })
  /-- Its file holds its specialization. -/
  | held {d first : Declaration} (declared : t.declaration? id = some d)
    (holder : a.holder? t d.claimKey = some first) (file : first.file = d.file) :
    Registers a t id (.ok a)
  /-- Another file holds its specialization. -/
  | refused {d first : Declaration} (declared : t.declaration? id = some d)
    (holder : a.holder? t d.claimKey = some first) (file_ne : first.file ≠ d.file) :
    Registers a t id
      (.error (.doubleInstantiation d.symbol.name d.claimKey.2 first.file d.file))

theorem registers (a : Attributor) (t : SymbolTable) (id : DeclId) :
    Registers a t id (a.register t id) := by
  unfold register
  split
  · rename_i habsent
    exact .unknown habsent
  · rename_i d hd
    dsimp only
    split
    · rename_i hholder
      exact .free hd hholder
    · rename_i first hholder
      split
      · rename_i hfile
        exact .held hd hholder hfile
      · rename_i hfile
        exact .refused hd hholder hfile

/-- The holders after a definition is entered whose specialization is free. -/
theorem holder?_set (hd : t.declaration? id = some d) :
    ({ a with instantiations := a.instantiations.set d.claimKey id } : Attributor).holder? t key =
      if key = d.claimKey then some d else a.holder? t key := by
  unfold holder? OrderedMap.set
  rw [OrderedMap.find?_upsert]
  split
  · exact hd
  · rfl

theorem enters_register (h : a.register t id = .ok b) :
    Enters t (t.declaration? id = some ·) a b := by
  cases h ▸ registers a t id with
  | unknown => exact .refl t _ a
  | held => exact .refl t _ a
  | free hd hholder =>
    refine ⟨fun {key first} hkey => ?_, fun {key first} hkey => ?_⟩
    · rw [holder?_set hd, if_neg]
      · exact hkey
      · rintro rfl
        rw [hholder] at hkey
        cases hkey
    · rw [holder?_set hd] at hkey
      split at hkey
      · rename_i heq
        cases hkey
        exact .inr ⟨hd, heq.symm⟩
      · exact .inl hkey

theorem answers_register (h : a.register t id = .ok b) : b.answers = a.answers := by
  cases h ▸ registers a t id <;> rfl

theorem holds_of_register (hd : t.declaration? id = some d) (h : a.register t id = .ok b) :
    b.Holds t d := by
  cases h ▸ registers a t id with
  | unknown habsent => cases habsent.symm.trans hd
  | free hd' =>
    obtain rfl := Option.some.inj (hd'.symm.trans hd)
    exact ⟨_, by rw [holder?_set hd, if_pos rfl], rfl⟩
  | held hd' hholder hfile =>
    obtain rfl := Option.some.inj (hd'.symm.trans hd)
    exact ⟨_, hholder, hfile⟩

theorem conflict_of_register (h : a.register t id = .error e) :
    ∃ d first, t.declaration? id = some d ∧ a.Conflict t d first ∧
      e = .doubleInstantiation d.symbol.name d.claimKey.2 first.file d.file := by
  cases h ▸ registers a t id with
  | refused hd hholder hfile => exact ⟨_, _, hd, ⟨hholder, hfile⟩, rfl⟩

/-! ## All definitions of a use -/

theorem registerAll_cons_of_ok (h : a.register t id = .ok b) :
    a.registerAll t (id :: ids) = b.registerAll t ids := by
  rw [registerAll, h]

theorem registerAll_cons_of_error (h : a.register t id = .error e) :
    a.registerAll t (id :: ids) = (.error e, a) := by
  rw [registerAll, h]

/-- The induction is on the definitions; those before an error stay entered. -/
theorem enters_registerAll (t : SymbolTable) (ids : List DeclId) (a : Attributor) :
    Enters t (t.Lists ids) a (a.registerAll t ids).2 := by
  induction ids generalizing a with
  | nil => exact .refl t _ a
  | cons id ids ih =>
    cases h : a.register t id with
    | error e =>
      rw [registerAll_cons_of_error h]
      exact .refl t _ a
    | ok b =>
      rw [registerAll_cons_of_ok h]
      exact (enters_register h).trans (ih b) (fun d hd => ⟨id, .head _, hd⟩)
        fun d ⟨i, hi, hd⟩ => ⟨i, .tail _ hi, hd⟩

theorem answers_registerAll (t : SymbolTable) (ids : List DeclId) (a : Attributor) :
    (a.registerAll t ids).2.answers = a.answers := by
  induction ids generalizing a with
  | nil => rfl
  | cons id ids ih =>
    cases h : a.register t id with
    | error e => rw [registerAll_cons_of_error h]
    | ok b =>
      rw [registerAll_cons_of_ok h]
      exact (ih b).trans (answers_register h)

theorem holds_of_registerAll (h : (a.registerAll t ids).1 = .ok ()) (hd : t.Lists ids d) :
    (a.registerAll t ids).2.Holds t d := by
  induction ids generalizing a with
  | nil => simp [SymbolTable.Lists] at hd
  | cons id ids ih =>
    cases hid : a.register t id with
    | error e =>
      rw [registerAll_cons_of_error hid] at h
      cases h
    | ok b =>
      rw [registerAll_cons_of_ok hid] at h ⊢
      obtain ⟨i, hi, hd⟩ := hd
      rcases List.mem_cons.1 hi with rfl | hi
      · exact (holds_of_register hd hid).mono (enters_registerAll t ids b)
      · exact ih h ⟨i, hi, hd⟩

theorem conflict_of_registerAll (h : (a.registerAll t ids).1 = .error e) :
    ∃ d first, t.Lists ids d ∧ (a.registerAll t ids).2.Conflict t d first ∧
      e = .doubleInstantiation d.symbol.name d.claimKey.2 first.file d.file := by
  induction ids generalizing a with
  | nil => cases h
  | cons id ids ih =>
    cases hid : a.register t id with
    | error e =>
      rw [registerAll_cons_of_error hid] at h ⊢
      cases h
      obtain ⟨d, first, hd, hconflict, he⟩ := conflict_of_register hid
      exact ⟨d, first, ⟨id, .head _, hd⟩, hconflict, he⟩
    | ok b =>
      rw [registerAll_cons_of_ok hid] at h ⊢
      obtain ⟨d, first, ⟨i, hi, hd⟩, hconflict, he⟩ := ih h
      exact ⟨d, first, ⟨i, .tail _ hi, hd⟩, hconflict, he⟩

/-- What entering definitions with a property says and what it leaves behind. -/
structure Registered (t : SymbolTable) (P : Declaration → Prop) (a : Attributor)
    (result : Except AnalysisError Unit) (b : Attributor) : Prop where
  enters : Enters t P a b
  answers : b.answers = a.answers
  ok : result = .ok () → ∀ d, P d → b.Holds t d
  error : ∀ {e}, result = .error e → ∃ d, P d ∧ ∃ first, b.Conflict t d first ∧
    e = .doubleInstantiation d.symbol.name d.claimKey.2 first.file d.file

theorem registered_registerAll {P : Declaration → Prop} (h : ∀ d, t.Lists ids d ↔ P d)
    (a : Attributor) : Registered t P a (a.registerAll t ids).1 (a.registerAll t ids).2 where
  enters := (enters_registerAll t ids a).trans (.refl t P _) (fun d => (h d).1) fun _ => id
  answers := answers_registerAll t ids a
  ok hok d hd := holds_of_registerAll hok ((h d).2 hd)
  error herror := by
    obtain ⟨d, first, hd, hconflict, he⟩ := conflict_of_registerAll herror
    exact ⟨d, (h d).1 hd, first, hconflict, he⟩

/-! ## One use -/

/-- What answering a use gives and leaves behind. -/
inductive Gives (a : Attributor) (t : SymbolTable) (reach : Reachability) (u : Use)
    (usingIsAUse : Bool) : Except AnalysisError (Option Attribution) × Attributor → Prop where
  /-- A using-declaration settles the use. -/
  | settled {given : Attribution} (direct : usingAnswer? u usingIsAUse = some given) :
    Gives a t reach u usingIsAUse (.ok (some given), a)
  /-- The answer is known. -/
  | remembered {given : Attribution} (indirect : usingAnswer? u usingIsAUse = none)
    (known : a.answers.find? (Question.ofUse t u) = some given) :
    Gives a t reach u usingIsAUse (.ok (some given), { a with hits := a.hits + 1 })
  /-- There is nothing to choose from. -/
  | nothing (indirect : usingAnswer? u usingIsAUse = none)
    (unselected : Candidate.select (Candidate.ofUse t reach u) = none) :
    Gives a t reach u usingIsAUse (.ok none, a)
  /-- A claim of the use is in conflict. -/
  | refused {chosen : Candidate} {rule : AttributionRule} {e : AnalysisError} {b : Attributor}
    (indirect : usingAnswer? u usingIsAUse = none)
    (selected : Candidate.select (Candidate.ofUse t reach u) = some (chosen, rule))
    (registered : a.registerAll t (Candidate.claims chosen (Candidate.ofUse t reach u)) =
      (.error e, b)) :
    Gives a t reach u usingIsAUse (.error e, b)
  /-- A candidate is chosen, and the answer is remembered. -/
  | found {chosen : Candidate} {rule : AttributionRule} {b : Attributor}
    (indirect : usingAnswer? u usingIsAUse = none)
    (selected : Candidate.select (Candidate.ofUse t reach u) = some (chosen, rule))
    (registered : a.registerAll t (Candidate.claims chosen (Candidate.ofUse t reach u)) =
      (.ok (), b)) :
    Gives a t reach u usingIsAUse
      (.ok (some ⟨some chosen.id, chosen.declaration.owner, rule⟩),
        { b with answers := b.answers.set (Question.ofUse t u)
                  ⟨some chosen.id, chosen.declaration.owner, rule⟩ })

theorem gives (a : Attributor) (t : SymbolTable) (reach : Reachability) (u : Use)
    (usingIsAUse : Bool) : Gives a t reach u usingIsAUse (a.answer t reach u usingIsAUse) := by
  unfold answer
  split
  · rename_i hdirect
    exact .settled hdirect
  · rename_i hindirect
    split
    · rename_i hknown
      exact .remembered hindirect hknown
    · unfold choose
      dsimp only
      split
      · rename_i hnone
        exact .nothing hindirect hnone
      · rename_i hselected
        split
        · rename_i hregistered
          exact .refused hindirect hselected hregistered
        · rename_i hregistered
          exact .found hindirect hselected hregistered

end Attributor

end IncludeAudit
