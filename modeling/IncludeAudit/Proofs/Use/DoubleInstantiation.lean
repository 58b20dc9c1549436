import IncludeAudit.Proofs.Use.Remembering

/-!
# Specializations that are instantiated twice

Attributing a list of uses fails if the uses claim two explicit instantiation definitions of one
specialization in different files. That depends on what is claimed and not on the order of the uses,
although only the first definition of a specialization is entered, and an error leaves the rest of a
use's claims out.

* `holds_of_no_error`: if no use fails, all that is claimed is held in the end;
* `conflict_of_error`: if one fails, it claims what another file holds, which was claimed, too.

A definition without template arguments is entered as one with empty arguments. So the two are in
conflict, and `fails_iff` has to say so.
-/

namespace IncludeAudit

namespace Attributor

variable {t : SymbolTable} {reach : Reachability} {a : Attributor} {qs : List Query}
  {reply : Reply} {d first : Declaration} {e : AnalysisError}

/-- True if a definition is instantiated twice when the uses are attributed in turn, going on after
errors. -/
def Fails (reach : Reachability) (t : SymbolTable) (qs : List Query) : Prop :=
  ∃ reply ∈ replies reach t {} (qs.map .ask), ∃ symbol specialization first second,
    reply.result = .error (.doubleInstantiation symbol specialization first second)

/-- Two definitions of one specialization in different files. -/
structure Clash (d e : Declaration) : Prop where
  symbol : d.symbol = e.symbol
  specialization : d.specialization = e.specialization
  file_ne : d.file ≠ e.file

/-- Two definitions of one symbol in different files, one without template arguments and one with
empty ones. -/
structure BlankClash (d e : Declaration) : Prop where
  symbol : d.symbol = e.symbol
  none : d.specialization = none
  empty : e.specialization = some ""
  file_ne : d.file ≠ e.file

/-- True if uses claim two definitions that are related in a given way. -/
def Claim (R : Declaration → Declaration → Prop) (reach : Reachability) (t : SymbolTable)
    (qs : List Query) : Prop :=
  ∃ d ∈ qs.flatMap (·.claimed t reach), ∃ e ∈ qs.flatMap (·.claimed t reach), R d e

/-! ## Runs without an error -/

/-- The induction is on the uses. What is held after one of them is held in the end. -/
theorem holds_of_no_error (h : a.Remembers t reach)
    (hok : ∀ reply ∈ replies reach t a (qs.map .ask), ∀ e, reply.result ≠ .error e) :
    ∃ b, Enters t (fun _ => True) a b ∧ ∀ d ∈ qs.flatMap (·.claimed t reach), b.Holds t d := by
  induction qs generalizing a with
  | nil => exact ⟨a, .refl t _ a, List.forall_mem_nil _⟩
  | cons q qs ih =>
    have hanswered := answered_answer h q
    obtain ⟨b, henters, hheld⟩ := ih hanswered.remembers fun reply hreply =>
      hok reply (.tail _ hreply)
    refine ⟨b, hanswered.enters.trans henters (fun _ _ => trivial) (fun _ _ => trivial), ?_⟩
    intro d hd
    rw [List.flatMap_cons, List.mem_append] at hd
    rcases hd with hd | hd
    · have hfirst := hok _ (.head _)
      cases hresult : (a.answer t reach q.use q.usingIsAUse).1 with
      | error e => exact absurd hresult (hfirst e)
      | ok found => exact ((hanswered.ok hresult).2 d hd).mono henters
    · exact hheld d hd

/-! ## Runs with an error -/

/-- The induction is on the uses. `P` holds of what is claimed, and so of all holders. -/
theorem conflict_of_error {P : Declaration → Prop} (h : a.Remembers t reach)
    (hholder : ∀ key first, a.holder? t key = some first → P first ∧ first.claimKey = key)
    (hclaimed : ∀ d ∈ qs.flatMap (·.claimed t reach), P d)
    (hreply : reply ∈ replies reach t a (qs.map .ask)) (herror : reply.result = .error e) :
    ∃ d first, P d ∧ P first ∧ d.claimKey = first.claimKey ∧ d.file ≠ first.file := by
  induction qs generalizing a with
  | nil => cases hreply
  | cons q qs ih =>
    have hanswered := answered_answer h q
    simp only [List.flatMap_cons, List.mem_append] at hclaimed
    have hholder' : ∀ key first,
        (a.answer t reach q.use q.usingIsAUse).2.holder? t key = some first →
          P first ∧ first.claimKey = key := by
      intro key first hfirst
      rcases hanswered.enters.entered hfirst with hold | ⟨hnew, hkey⟩
      · exact hholder key first hold
      · exact ⟨hclaimed first (.inl hnew), hkey⟩
    rcases List.mem_cons.1 hreply with rfl | hreply
    · obtain ⟨d, hd, first, hconflict, -⟩ := hanswered.error herror
      obtain ⟨hfirst, hkey⟩ := hholder' _ first hconflict.holder
      exact ⟨d, first, hclaimed d (.inl hd), hfirst, hkey.symm, hconflict.file_ne.symm⟩
    · exact ih hanswered.remembers hholder' (fun d hd => hclaimed d (.inr hd)) hreply

/-! ## Conflicts -/

/-- The registry does not tell missing template arguments from empty ones. -/
theorem claimKey_eq_iff : d.claimKey = first.claimKey ↔ d.symbol = first.symbol ∧
    (d.specialization = first.specialization ∨
      d.specialization = none ∧ first.specialization = some "" ∨
      first.specialization = none ∧ d.specialization = some "") := by
  rw [Declaration.claimKey, Declaration.claimKey, Prod.mk.injEq]
  refine and_congr_right fun _ => ?_
  cases d.specialization <;> cases first.specialization <;> simp [eq_comm]

theorem claim_iff : Claim Clash reach t qs ∨ Claim BlankClash reach t qs ↔
    Claim (fun d e => d.claimKey = e.claimKey ∧ d.file ≠ e.file) reach t qs := by
  constructor
  · rintro (⟨d, hd, e, he, h⟩ | ⟨d, hd, e, he, h⟩)
    · exact ⟨d, hd, e, he, claimKey_eq_iff.2 ⟨h.symbol, .inl h.specialization⟩, h.file_ne⟩
    · exact ⟨d, hd, e, he, claimKey_eq_iff.2 ⟨h.symbol, .inr (.inl ⟨h.none, h.empty⟩)⟩, h.file_ne⟩
  · rintro ⟨d, hd, e, he, hkey, hfile⟩
    obtain ⟨hsymbol, hsame | ⟨hnone, hempty⟩ | ⟨hnone, hempty⟩⟩ := claimKey_eq_iff.1 hkey
    · exact .inl ⟨d, hd, e, he, hsymbol, hsame, hfile⟩
    · exact .inr ⟨d, hd, e, he, hsymbol, hnone, hempty, hfile⟩
    · exact .inr ⟨e, he, d, hd, hsymbol.symm, hnone, hempty, hfile.symm⟩

theorem fails_iff_conflict : Fails reach t qs ↔
    Claim (fun d e => d.claimKey = e.claimKey ∧ d.file ≠ e.file) reach t qs := by
  constructor
  · rintro ⟨reply, hreply, _, _, _, _, herror⟩
    have hnone : ∀ key first, ({} : Attributor).holder? t key = some first →
        first ∈ qs.flatMap (·.claimed t reach) ∧ first.claimKey = key := fun key first hfirst =>
      absurd (hfirst.symm.trans holder?_fresh) (Option.some_ne_none first)
    obtain ⟨d, first, hd, hfirst, hkey, hfile⟩ :=
      conflict_of_error (remembers_fresh t reach) hnone (fun _ => id) hreply herror
    exact ⟨d, hd, first, hfirst, hkey, hfile⟩
  · rintro ⟨d, hd, first, hfirst, hkey, hfile⟩
    refine Classical.byContradiction fun hfails => ?_
    have hok : ∀ reply ∈ replies reach t {} (qs.map .ask), ∀ e, reply.result ≠ .error e := by
      intro reply hreply e he
      obtain ⟨_, _, hanswered⟩ := answered_of_mem_replies (remembers_fresh t reach) hreply
      obtain ⟨d, -, first, -, rfl⟩ := hanswered.error he
      exact hfails ⟨reply, hreply, _, _, _, _, he⟩
    obtain ⟨b, -, hheld⟩ := holds_of_no_error (remembers_fresh t reach) hok
    exact hfile ((hheld d hd).file_eq (hheld first hfirst) hkey)

/-- Attributing a list of uses fails exactly if the uses claim two definitions of one specialization
in different files, where missing template arguments count as empty ones. So it fails for all orders
of the uses or for none. -/
theorem fails_iff (reach : Reachability) (t : SymbolTable) (qs : List Query) :
    (Fails reach t qs ↔ Claim Clash reach t qs ∨ Claim BlankClash reach t qs) ∧
      ∀ qs' : List Query, qs'.Perm qs → (Fails reach t qs' ↔ Fails reach t qs) := by
  refine ⟨fails_iff_conflict.trans claim_iff.symm, fun qs' hperm => ?_⟩
  have hclaimed (d : Declaration) : d ∈ qs'.flatMap (·.claimed t reach) ↔
      d ∈ qs.flatMap (·.claimed t reach) :=
    (hperm.flatMap_right _).mem_iff
  rw [fails_iff_conflict, fails_iff_conflict]
  simp only [Claim, hclaimed]

/-! ## Missing and empty arguments -/

/-- The template `S`, which `a.h` instantiates without arguments and `b.h` with empty ones. -/
def blankInstantiations : SymbolTable :=
  let definition (file : FileName) (specialization : Option String) : Declaration :=
    { symbol := ⟨"S", .recordTemplate⟩, location := .plain ⟨file, 3, 1⟩
      instantiation := some .definition, isDefinition := true, specialization }
  ((SymbolTable.empty []).declare (definition (.quoted "a.h") none)).declare
    (definition (.quoted "b.h") (some ""))

/-- Uses of both in `f.cc`. -/
def blankQueries : List Query :=
  [none, some ""].map fun specialization =>
    { use := { symbol := ⟨"S", .recordTemplate⟩, location := .plain ⟨.quoted "f.cc", 9, 1⟩
               specialization }
      usingIsAUse := false }

/-- The second use fails, although the definitions have different specializations. -/
theorem fails_without_clash : Fails twoHeaders.distance blankInstantiations blankQueries ∧
    ¬ Claim Clash twoHeaders.distance blankInstantiations blankQueries := by
  refine ⟨?_, ?_⟩
  · rw [fails_iff_conflict, Claim]
    decide +kernel
  · rintro ⟨d, hd, e, he, h⟩
    have hsame : ∀ d ∈ blankQueries.flatMap (·.claimed blankInstantiations twoHeaders.distance),
        ∀ e ∈ blankQueries.flatMap (·.claimed blankInstantiations twoHeaders.distance),
          d.specialization = e.specialization → d.file = e.file := by
      decide +kernel
    exact h.file_ne (hsame d hd e he h.specialization)

end Attributor

end IncludeAudit
