import IncludeAudit.Proofs.Provider.DeadEnds

/-!
# Chains of mappings

A private file leads on to a target of the first layer that maps it, and so does that target, until
a file is public, has no mappings, or would lead back. `resolve_follows_chain` says that a file has
exactly one such chain, that `resolve` finds its end, and what it tells of it.

* `firstLayer_eq_some`, `preferred?_eq_some`: the target to which a step goes, in terms of the
  layers;
* `exists_goesOn`, `GoesOn.eq`: from each of its files on a chain goes on in one way;
* `layer_resolve`: the layer of the first step.
-/

namespace IncludeAudit

namespace ProviderView

variable {v : ProviderView} {f g c : FileName} {l : Layer} {targets : List Target}
  {unmet met rest rest' chain : List FileName}

/-! ## Steps -/

/-- No layer maps the file. -/
def Unmapped (v : ProviderView) (f : FileName) : Prop :=
  ∀ entry ∈ v.layers f, entry.2 = []

/-- The first layer that maps a file, and the targets that it has for the file. -/
structure FirstMapping (v : ProviderView) (f : FileName) (l : Layer) (targets : List Target) :
    Prop where
  ne_nil : targets ≠ []
  first : ∃ before after, v.layers f = before ++ (l, targets) :: after ∧
    ∀ entry ∈ before, entry.2 = []

/-- A public file as a target that the mapping calls public as well. -/
def IsOpen (v : ProviderView) (t : Target) : Prop :=
  t.visibility = .pub ∧ v.isPrivate t.file = false

/-- The target that is taken from a list: the first open one, or the first of all if none is open.
-/
inductive Takes (v : ProviderView) (targets : List Target) : FileName → Prop where
  | firstOpen {before after : List Target} {t : Target} (split : targets = before ++ t :: after)
      (isOpen : v.IsOpen t) (closed : ∀ s ∈ before, ¬ v.IsOpen s) : Takes v targets t.file
  | first {after : List Target} {t : Target} (split : targets = t :: after)
      (closed : ∀ s ∈ targets, ¬ v.IsOpen s) : Takes v targets t.file

/-- A private file and the target that is taken from the first layer that maps it. -/
structure StepsTo (v : ProviderView) (f g : FileName) : Prop where
  isPrivate : v.isPrivate f = true
  takes : ∃ l targets, v.FirstMapping f l targets ∧ v.Takes targets g

theorem firstLayer_eq_none : v.firstLayer f = none ↔ v.Unmapped f := by
  simp [firstLayer, Unmapped]

theorem firstLayer_eq_some : v.firstLayer f = some (l, targets) ↔ v.FirstMapping f l targets := by
  rw [firstLayer, List.find?_eq_some_iff_append]
  simp only [Bool.not_eq_true', List.isEmpty_eq_false_iff, Bool.not_not, List.isEmpty_iff]
  constructor
  · rintro ⟨hne, hfirst⟩
    exact ⟨hne, hfirst⟩
  · rintro ⟨hne, hfirst⟩
    exact ⟨hne, hfirst⟩

theorem FirstMapping.not_unmapped (h : v.FirstMapping f l targets) : ¬ v.Unmapped f := by
  rw [← firstLayer_eq_none, firstLayer_eq_some.2 h]
  nofun

theorem isOpen_iff {t : Target} :
    v.IsOpen t ↔ (t.visibility == .pub && !v.isPrivate t.file) = true := by
  simp [IsOpen]

theorem preferred?_eq_some : v.preferred? targets = some g ↔ v.Takes targets g := by
  simp only [preferred?, Option.map_eq_some_iff, Option.or_eq_some_iff,
    List.find?_eq_some_iff_append, List.find?_eq_none, Bool.not_eq_true', ← Bool.not_eq_true,
    ← isOpen_iff]
  constructor
  · rintro ⟨t, ⟨hopen, before, after, hsplit, hclosed⟩ | ⟨hclosed, hhead⟩, rfl⟩
    · exact .firstOpen hsplit hopen hclosed
    · obtain ⟨after, rfl⟩ := List.head?_eq_some_iff.1 hhead
      exact .first rfl hclosed
  · intro h
    cases h with
    | firstOpen hsplit hopen hclosed => exact ⟨_, .inl ⟨hopen, _, _, hsplit, hclosed⟩, rfl⟩
    | first hsplit hclosed => exact ⟨_, .inr ⟨hclosed, by rw [hsplit, List.head?_cons]⟩, rfl⟩

theorem stepsTo_iff : v.StepsTo f g ↔ v.isPrivate f = true ∧
    ∃ l targets, v.firstLayer f = some (l, targets) ∧ v.preferred? targets = some g := by
  simp only [firstLayer_eq_some, preferred?_eq_some]
  exact ⟨fun h => ⟨h.isPrivate, h.takes⟩, fun ⟨hprivate, htakes⟩ => ⟨hprivate, htakes⟩⟩

theorem StepsTo.unique (hg : v.StepsTo f g) (hc : v.StepsTo f c) : g = c := by
  obtain ⟨-, l, targets, hlayer, hg⟩ := stepsTo_iff.1 hg
  obtain ⟨-, l', targets', hlayer', hc⟩ := stepsTo_iff.1 hc
  rw [hlayer, Option.some.injEq, Prod.mk.injEq] at hlayer'
  rw [← hlayer'.2, hg] at hc
  exact Option.some.inj hc

/-! ## Chains -/

/-- The chain of a file: no file comes twice, each file steps to the next, and the last is public,
has no mapping, or would step to a file of the chain. -/
structure IsChain (v : ProviderView) (f : FileName) (chain : List FileName) : Prop where
  begins : chain.head? = some f
  nodup : chain.Nodup
  steps : chain.IsChain v.StepsTo
  stops : ∀ last, chain.getLast? = some last → v.isPrivate last = true →
    v.Unmapped last ∨ ∃ next ∈ chain, v.StepsTo last next

/-- A chain from one of its files on. The files before that are `met`. -/
structure GoesOn (v : ProviderView) (met : List FileName) (f : FileName) (rest : List FileName) :
    Prop where
  nodup : (met ++ f :: rest).Nodup
  steps : (f :: rest).IsChain v.StepsTo
  stops : ∀ last, (f :: rest).getLast? = some last → v.isPrivate last = true →
    v.Unmapped last ∨ ∃ next ∈ met ++ f :: rest, v.StepsTo last next

theorem isChain_iff : v.IsChain f chain ↔ ∃ rest, chain = f :: rest ∧ v.GoesOn [] f rest := by
  constructor
  · rintro ⟨hbegins, hnodup, hsteps, hstops⟩
    obtain ⟨rest, rfl⟩ := List.head?_eq_some_iff.1 hbegins
    exact ⟨rest, rfl, hnodup, hsteps, hstops⟩
  · rintro ⟨rest, rfl, hnodup, hsteps, hstops⟩
    exact ⟨rfl, hnodup, hsteps, hstops⟩

/-- A chain that ends at the file. -/
theorem goesOn_nil (hnodup : (met ++ [f]).Nodup) (hstops : v.isPrivate f = true →
    v.Unmapped f ∨ ∃ next ∈ met ++ [f], v.StepsTo f next) : v.GoesOn met f [] where
  nodup := hnodup
  steps := .singleton f
  stops last hlast := by
    obtain rfl : f = last := by simpa using hlast
    exact hstops

theorem goesOn_cons : v.GoesOn met f (g :: rest) ↔
    v.StepsTo f g ∧ v.GoesOn (met ++ [f]) g rest := by
  have hfiles : met ++ [f] ++ g :: rest = met ++ f :: g :: rest := by simp
  constructor
  · rintro ⟨hnodup, hsteps, hstops⟩
    obtain ⟨hstep, hsteps⟩ := List.isChain_cons_cons.1 hsteps
    rw [List.getLast?_cons_cons, ← hfiles] at hstops
    exact ⟨hstep, hfiles ▸ hnodup, hsteps, hstops⟩
  · rintro ⟨hstep, hnodup, hsteps, hstops⟩
    rw [hfiles] at hnodup hstops
    exact ⟨hnodup, List.isChain_cons_cons.2 ⟨hstep, hsteps⟩, by rwa [List.getLast?_cons_cons]⟩

/-- A chain that ends at a file does not also go on from there: a step would lead back. -/
theorem GoesOn.not_cons (hend : v.GoesOn met f []) (h : v.GoesOn met f (g :: rest)) : False := by
  obtain ⟨hstep, hrest⟩ := goesOn_cons.1 h
  rcases hend.stops f rfl hstep.isPrivate with hunmapped | ⟨next, hnext, hback⟩
  · obtain ⟨l, targets, hfirst, -⟩ := hstep.takes
    exact hfirst.not_unmapped hunmapped
  · rw [hback.unique hstep] at hnext
    exact (List.nodup_append.1 hrest.nodup).2.2 g hnext g List.mem_cons_self rfl

theorem GoesOn.eq (h : v.GoesOn met f rest) (h' : v.GoesOn met f rest') : rest = rest' := by
  induction rest generalizing met f rest' with
  | nil =>
    cases rest' with
    | nil => rfl
    | cons g rest' => exact (h.not_cons h').elim
  | cons g rest ih =>
    cases rest' with
    | nil => exact (h'.not_cons h).elim
    | cons g' rest' =>
      obtain ⟨hstep, hrest⟩ := goesOn_cons.1 h
      obtain ⟨hstep', hrest'⟩ := goesOn_cons.1 h'
      obtain rfl := hstep.unique hstep'
      rw [ih hrest hrest']

/-- The induction is on the steps of the chain. The providers that are not `unmet` are on it
already, so a step to one of them leads back. -/
theorem exists_goesOn (v : ProviderView) (layer : Option Layer) (met : List FileName) (f : FileName)
    (unmet : List FileName) (hnodup : (met ++ [f]).Nodup)
    (hunmet : ∀ g ∈ v.providers, g ∈ unmet ↔ g ∉ met ++ [f]) :
    ∃ rest, v.GoesOn met f rest ∧
      (f :: rest).getLast? = some (v.resolveFrom layer f unmet).file := by
  fun_induction resolveFrom v layer f unmet generalizing met with
  | case1 layer f unmet hprivate hlayer =>
    exact ⟨[], goesOn_nil hnodup fun _ => .inl (firstLayer_eq_none.1 hlayer), rfl⟩
  | case2 layer f unmet _ found targets hlayer hnone =>
    exact absurd hnone (preferred?_ne_none hlayer)
  | case3 layer f unmet hprivate found targets hlayer next hnext hmem ih =>
    have hstep : v.StepsTo f next := stepsTo_iff.2 ⟨hprivate, found, targets, hlayer, hnext⟩
    have hprovider := mem_providers (mem_successors.2 (leadsTo_of_preferred? hlayer hnext))
    have hnew : next ∉ met ++ [f] := (hunmet next hprovider).1 hmem
    obtain ⟨rest, hrest, hlast⟩ := ih (met ++ [f])
      (List.nodup_append.2 ⟨hnodup, List.pairwise_singleton _ _, fun a ha b hb hab =>
        hnew (List.mem_singleton.1 hb ▸ hab ▸ ha)⟩)
      fun g hg => by
        rw [Search.mem_without, hunmet g hg, List.mem_append (t := [next]), List.mem_singleton,
          not_or]
    exact ⟨next :: rest, goesOn_cons.2 ⟨hstep, hrest⟩, by rw [List.getLast?_cons_cons, hlast]⟩
  | case4 layer f unmet hprivate found targets hlayer next hnext hmem =>
    have hprovider := mem_providers (mem_successors.2 (leadsTo_of_preferred? hlayer hnext))
    have hback : next ∈ met ++ [f] := by
      by_contra hnew
      exact hmem ((hunmet next hprovider).2 hnew)
    exact ⟨[], goesOn_nil hnodup fun _ =>
      .inr ⟨next, hback, stepsTo_iff.2 ⟨hprivate, found, targets, hlayer, hnext⟩⟩, rfl⟩
  | case5 layer f unmet hpublic =>
    exact ⟨[], goesOn_nil hnodup fun hprivate => absurd hprivate hpublic, rfl⟩

/-! ## The layer of the first step -/

theorem layer_resolveFrom_some (v : ProviderView) (l : Layer) (f : FileName)
    (unmet : List FileName) : (v.resolveFrom (some l) f unmet).layer = some l := by
  generalize hlayer : some l = layer
  fun_induction resolveFrom v layer f unmet with
  | case1 => rfl
  | case2 => rw [← hlayer, Option.some_or]
  | case3 _ _ _ _ _ _ _ _ _ _ ih =>
    rw [← hlayer, Option.some_or] at ih ⊢
    exact ih rfl
  | case4 => rw [← hlayer, Option.some_or]
  | case5 => rfl

/-- A step sets the layer also if it leads back, so that it is not made. -/
theorem layer_resolve (v : ProviderView) (f : FileName) :
    (v.resolve f).layer = if v.isPrivate f then (v.firstLayer f).map (·.1) else none := by
  rw [resolve, resolveFrom]
  split
  · split
    · rename_i hlayer
      rw [hlayer]
      rfl
    · rename_i found targets hlayer
      rw [hlayer, Option.none_or]
      split
      · rfl
      · split
        · exact v.layer_resolveFrom_some _ _ _
        · rfl
  · rfl

/-! ## The end of the chain -/

/-- A file has exactly one chain, and `resolve` finds its end, says whether that is public, and
gives the layer of the first mapping of the file if the file is private and has one. -/
theorem resolve_follows_chain (v : ProviderView) (f : FileName) :
    (∃ chain, v.IsChain f chain ∧ chain.getLast? = some (v.resolve f).file ∧
      ∀ other, v.IsChain f other → other = chain) ∧
    ((v.resolve f).isPublic = true ↔ v.isPrivate (v.resolve f).file = false) ∧
    ((v.resolve f).layer = none ↔ v.isPrivate f = false ∨ v.Unmapped f) ∧
    ∀ l, (v.resolve f).layer = some l ↔
      v.isPrivate f = true ∧ ∃ targets, v.FirstMapping f l targets := by
  refine ⟨?_, ?_, ?_, fun l => ?_⟩
  · obtain ⟨rest, hrest, hlast⟩ := v.exists_goesOn none [] f (Search.without f v.providers)
      (List.pairwise_singleton _ _) fun g hg => by simp [Search.mem_without, hg]
    refine ⟨f :: rest, isChain_iff.2 ⟨rest, rfl, hrest⟩, hlast, fun other hother => ?_⟩
    obtain ⟨rest', rfl, hrest'⟩ := isChain_iff.1 hother
    rw [hrest'.eq hrest]
  · rw [resolve, isPublic_resolveFrom, Bool.not_eq_true']
  · rw [layer_resolve, ← firstLayer_eq_none]
    cases v.isPrivate f <;> simp
  · rw [layer_resolve]
    simp only [← firstLayer_eq_some]
    cases v.isPrivate f <;> simp

end ProviderView

end IncludeAudit
