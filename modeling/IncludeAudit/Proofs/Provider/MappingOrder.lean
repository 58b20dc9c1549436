import IncludeAudit.Engine.Standard
import IncludeAudit.Proofs.Graph.Search
import IncludeAudit.Proofs.Provider.Gains
import IncludeAudit.Provider.View
import Mathlib.Data.List.Perm.Basic

/-!
# The order of mappings

What a map answers depends on the order of the mappings of one file and on the order of the
patterns. It does not depend on how these are interleaved (`answers_of_reordered`), if no target is
given two visibilities: only of those the first one counts.

* `receives_addAll`: what mappings leave in a builder;
* `alike_of_reordered`: reordered mappings leave maps that are alike;
* `resolve_alike`, `publicCandidates_alike`: views of maps that are alike answer alike.
-/

namespace IncludeAudit

/-! ## Maps that are alike -/

/-- Two maps that differ only in how the mappings of different files and patterns are interleaved.
-/
structure ProviderMap.Alike (m m' : ProviderMap) : Prop where
  exact : ∀ f, m.exactTargets f = m'.exactTargets f
  patterns : ∀ f, m.patternEdges f = m'.patternEdges f
  declared : ∀ f, m.declared.find? f = m'.declared.find? f
  builtin : m.builtin = m'.builtin
  alwaysPublic : m.alwaysPublic = m'.alwaysPublic
  targets : ∀ f, f ∈ m.targets ↔ f ∈ m'.targets

namespace ProviderView

variable {m m' : ProviderMap} {o : Overlay}

theorem isPrivate_alike (h : m.Alike m') (o : Overlay) :
    isPrivate ⟨m, o⟩ = isPrivate ⟨m', o⟩ := by
  funext f
  simp only [isPrivate, ProviderMap.patternVisibility, ProviderMap.builtinVisibility,
    h.alwaysPublic, h.declared, h.patterns, h.builtin]

theorem layers_alike (h : m.Alike m') (o : Overlay) : layers ⟨m, o⟩ = layers ⟨m', o⟩ := by
  funext f
  simp only [layers, ProviderMap.patternTargets, ProviderMap.builtinTargets, h.exact, h.patterns,
    h.builtin]

theorem firstLayer_alike (h : m.Alike m') (o : Overlay) :
    firstLayer ⟨m, o⟩ = firstLayer ⟨m', o⟩ := by
  funext f
  rw [firstLayer, firstLayer, layers_alike h]

theorem preferred?_alike (h : m.Alike m') (o : Overlay) :
    preferred? ⟨m, o⟩ = preferred? ⟨m', o⟩ := by
  funext targets
  rw [preferred?, preferred?, isPrivate_alike h]

theorem successors_alike (h : m.Alike m') (o : Overlay) :
    successors ⟨m, o⟩ = successors ⟨m', o⟩ := by
  funext f
  rw [successors, successors, allTargets, allTargets, layers_alike h]

theorem mem_providers_alike (h : m.Alike m') (f : FileName) :
    f ∈ providers ⟨m, o⟩ ↔ f ∈ providers ⟨m', o⟩ := by
  rw [providers, providers, List.mem_append, List.mem_append, h.targets]

/-- The induction is on the steps of one chain; the other makes the same ones. -/
theorem resolveFrom_alike (h : m.Alike m') (o : Overlay) (layer : Option Layer) (f : FileName)
    {unmet unmet' : List FileName} (hunmet : ∀ g, g ∈ unmet ↔ g ∈ unmet') :
    resolveFrom ⟨m, o⟩ layer f unmet = resolveFrom ⟨m', o⟩ layer f unmet' := by
  fun_induction resolveFrom ⟨m, o⟩ layer f unmet generalizing unmet' with
  | case1 layer f unmet hprivate hlayer =>
    rw [isPrivate_alike h] at hprivate
    rw [firstLayer_alike h] at hlayer
    rw [resolveFrom, if_pos hprivate]
    simp only [hlayer]
  | case2 layer f unmet hprivate found targets hlayer hnone =>
    rw [isPrivate_alike h] at hprivate
    rw [firstLayer_alike h] at hlayer
    rw [preferred?_alike h] at hnone
    rw [resolveFrom, if_pos hprivate]
    simp only [hlayer, hnone]
  | case3 layer f unmet hprivate found targets hlayer next hnext hmem ih =>
    rw [isPrivate_alike h] at hprivate
    rw [firstLayer_alike h] at hlayer
    rw [preferred?_alike h] at hnext
    have hleft : ∀ g, g ∈ Search.without next unmet ↔ g ∈ Search.without next unmet' := fun g => by
      rw [Search.mem_without, Search.mem_without, hunmet g]
    rw [ih hleft, resolveFrom.eq_1 _ layer, if_pos hprivate]
    simp only [hlayer, hnext, if_pos ((hunmet next).1 hmem)]
  | case4 layer f unmet hprivate found targets hlayer next hnext hmem =>
    rw [isPrivate_alike h] at hprivate
    rw [firstLayer_alike h] at hlayer
    rw [preferred?_alike h] at hnext
    rw [resolveFrom, if_pos hprivate]
    simp only [hlayer, hnext, if_neg (mt (hunmet next).2 hmem)]
  | case5 layer f unmet hpublic =>
    rw [isPrivate_alike h] at hpublic
    rw [resolveFrom, if_neg hpublic]

theorem resolve_alike (h : m.Alike m') (o : Overlay) : resolve ⟨m, o⟩ = resolve ⟨m', o⟩ := by
  funext f
  exact resolveFrom_alike h o none f fun g => by
    rw [Search.mem_without, Search.mem_without, mem_providers_alike h]

theorem resolveFor_alike (h : m.Alike m') (o : Overlay) :
    resolveFor ⟨m, o⟩ = resolveFor ⟨m', o⟩ := by
  funext f includer
  rw [resolveFor, resolveFor, resolve_alike h]

theorem closure_alike (h : m.Alike m') (o : Overlay) : closure ⟨m, o⟩ = closure ⟨m', o⟩ := by
  funext f
  rw [closure, closure, successors_alike h, Search.fromNode_congr (mem_providers_alike h)]

theorem isUsable_alike (h : m.Alike m') (o : Overlay) : isUsable ⟨m, o⟩ = isUsable ⟨m', o⟩ := by
  funext includer f
  rw [isUsable, isUsable, isPrivate_alike h]

theorem publicCandidates_alike (h : m.Alike m') (o : Overlay) :
    publicCandidates ⟨m, o⟩ = publicCandidates ⟨m', o⟩ := by
  funext f includer
  rw [publicCandidates, publicCandidates, resolveFor_alike h, closure_alike h, isUsable_alike h]

end ProviderView

/-! ## Mappings in another order -/

namespace GivenMapping

/-- The file that is mapped. Patterns have none. -/
def file? (c : GivenMapping) : Option FileName :=
  if c.kind = .exact then some (.ofText c.source) else none

variable {engine : PatternEngine} {c : GivenMapping} {e : ProviderEdge} {f : FileName}
  {v : Visibility} {cs cs' : List GivenMapping}

/-- A mapping adds its edge or nothing that a map has. -/
theorem gain_cases (engine : PatternEngine) (c : GivenMapping) :
    (∃ pattern, c.gain engine = c.edge pattern ∧ pattern.file? = c.file?) ∨
      ∃ reason, c.gain engine = .refusal c.source reason := by
  obtain ⟨kind, source, visibility, target, targetVisibility⟩ := c
  cases kind with
  | exact => exact .inl ⟨_, rfl, rfl⟩
  | glob =>
    simp only [gain]
    split
    · exact .inl ⟨_, rfl, rfl⟩
    · exact .inr ⟨_, rfl⟩
  | regex =>
    simp only [gain]
    split
    · exact .inl ⟨_, rfl, rfl⟩
    · exact .inr ⟨_, rfl⟩

theorem file?_of_edge? (h : (c.gain engine).edge? = some e) : e.source.file? = c.file? := by
  rcases c.gain_cases engine with ⟨pattern, hgain, hfile⟩ | ⟨reason, hgain⟩ <;> rw [hgain] at h
  · cases h
    exact hfile
  · cases h

theorem file?_of_settled? (h : (c.gain engine).settled? f = some v) : c.file? = some f := by
  rcases c.gain_cases engine with ⟨pattern, hgain, hfile⟩ | ⟨reason, hgain⟩ <;> rw [hgain] at h
  · obtain ⟨hsource, -⟩ := Option.ite_none_right_eq_some.1 h
    exact hfile.symm.trans hsource
  · cases h

theorem target_of_offered? (h : (c.gain engine).offered? f = some v) :
    c.target = f ∧ c.targetVisibility = v := by
  rcases c.gain_cases engine with ⟨pattern, hgain, -⟩ | ⟨reason, hgain⟩ <;> rw [hgain] at h
  · obtain ⟨htarget, hv⟩ := Option.ite_none_right_eq_some.1 h
    exact ⟨htarget, Option.some.inj hv⟩
  · cases h

/-- The edges of mappings, without those whose pattern cannot be read. -/
def edges (engine : PatternEngine) (cs : List GivenMapping) : List ProviderEdge :=
  cs.filterMap fun c => (c.gain engine).edge?

/-- The edges from one file, or from patterns, are those of its mappings. -/
theorem filter_edges (engine : PatternEngine) (cs : List GivenMapping) (f? : Option FileName) :
    (edges engine cs).filter (·.source.file? == f?) =
      edges engine (cs.filter (·.file? == f?)) := by
  rw [edges, edges, List.filter_filterMap, List.filterMap_filter]
  refine List.filterMap_congr fun c _ => ?_
  cases hedge : (c.gain engine).edge? with
  | none => simp
  | some e => rw [Option.filter_some, file?_of_edge? hedge]

/-- What is settled of a file is told by its mappings. -/
theorem filterMap_settled? (engine : PatternEngine) (cs : List GivenMapping) (f : FileName) :
    (cs.map (gain engine)).filterMap (Gain.settled? f) =
      ((cs.filter (·.file? == some f)).map (gain engine)).filterMap (Gain.settled? f) := by
  rw [List.filterMap_map, List.filterMap_map, List.filterMap_filter]
  refine List.filterMap_congr fun c _ => ?_
  split
  · rfl
  · rename_i hfile
    rw [Function.comp_apply, Option.eq_none_iff_forall_ne_some]
    exact fun v hv => hfile (beq_iff_eq.2 (file?_of_settled? hv))

/-- The same mappings in another order, in which those of one file keep their order and so do the
patterns, which are the mappings of no file. -/
structure Reordered (cs cs' : List GivenMapping) : Prop where
  perm : cs.Perm cs'
  order : ∀ f?, cs.filter (·.file? == f?) = cs'.filter (·.file? == f?)

/-- Neighbours that are not mappings of one file, nor both patterns, can change places. -/
theorem Reordered.swap {d : GivenMapping} (h : c.file? ≠ d.file?) (cs ds : List GivenMapping) :
    Reordered (cs ++ c :: d :: ds) (cs ++ d :: c :: ds) where
  perm := (List.Perm.swap d c ds).append_left cs
  order f? := by
    simp only [List.filter_append, List.filter_cons, beq_iff_eq]
    by_cases hc : c.file? = f?
    · have hd : d.file? ≠ f? := fun hd => h (hc.trans hd.symm)
      rw [if_pos hc, if_neg hd, if_neg hd, if_pos hc]
    · rw [if_neg hc, if_neg hc]

theorem Reordered.filter_edges (h : Reordered cs cs') (engine : PatternEngine)
    (f? : Option FileName) : (edges engine cs).filter (·.source.file? == f?) =
      (edges engine cs').filter (·.source.file? == f?) := by
  rw [GivenMapping.filter_edges, GivenMapping.filter_edges, h.order]

theorem Reordered.mem_edges (h : Reordered cs cs') (engine : PatternEngine) (e : ProviderEdge) :
    e ∈ edges engine cs ↔ e ∈ edges engine cs' :=
  (h.perm.filterMap _).mem_iff

theorem Reordered.filterMap_settled? (h : Reordered cs cs') (engine : PatternEngine)
    (f : FileName) : (cs.map (gain engine)).filterMap (Gain.settled? f) =
      (cs'.map (gain engine)).filterMap (Gain.settled? f) := by
  rw [GivenMapping.filterMap_settled?, GivenMapping.filterMap_settled? engine cs', h.order]

/-- No file is given two visibilities as a target. -/
def OneTargetVisibility (cs : List GivenMapping) : Prop :=
  ∀ c ∈ cs, ∀ d ∈ cs, c.target = d.target → c.targetVisibility = d.targetVisibility

theorem OneTargetVisibility.offered?_eq (h : OneTargetVisibility cs) {v' : Visibility}
    (hv : v ∈ (cs.map (gain engine)).filterMap (Gain.offered? f))
    (hv' : v' ∈ (cs.map (gain engine)).filterMap (Gain.offered? f)) : v = v' := by
  rw [List.filterMap_map, List.mem_filterMap] at hv hv'
  obtain ⟨c, hc, hv⟩ := hv
  obtain ⟨d, hd, hv'⟩ := hv'
  obtain ⟨htarget, rfl⟩ := target_of_offered? hv
  obtain ⟨htarget', rfl⟩ := target_of_offered? hv'
  exact h c hc d hd (htarget.trans htarget'.symm)

/-- Which edge to a file is the first one depends on the order, but not what it tells. -/
theorem Reordered.head?_offered? (h : Reordered cs cs') (htargets : OneTargetVisibility cs)
    (engine : PatternEngine) (f : FileName) :
    ((cs.map (gain engine)).filterMap (Gain.offered? f)).head? =
      ((cs'.map (gain engine)).filterMap (Gain.offered? f)).head? := by
  have hperm := (h.perm.map (gain engine)).filterMap (Gain.offered? f)
  cases hfirst : ((cs.map (gain engine)).filterMap (Gain.offered? f)).head? with
  | none =>
    rw [List.head?_eq_none_iff] at hfirst
    rw [hfirst, List.nil_perm] at hperm
    rw [hperm, List.head?_nil]
  | some v =>
    cases hfirst' : ((cs'.map (gain engine)).filterMap (Gain.offered? f)).head? with
    | none =>
      rw [List.head?_eq_none_iff] at hfirst'
      rw [hfirst', List.perm_nil] at hperm
      rw [hperm, List.head?_nil] at hfirst
      cases hfirst
    | some v' =>
      have hmem := List.mem_of_mem_head? hfirst
      have hmem' := hperm.mem_iff.2 (List.mem_of_mem_head? hfirst')
      rw [htargets.offered?_eq hmem hmem']

end GivenMapping

namespace ProviderBuilder

variable {cs cs' : List GivenMapping}

/-- Mappings that are given to the builder in turn. -/
def addAll (b : ProviderBuilder) (engine : PatternEngine) (cs : List GivenMapping) :
    ProviderBuilder :=
  cs.foldl (fun b c => b.addGiven engine c) b

theorem receives_addAll (b : ProviderBuilder) (engine : PatternEngine) (cs : List GivenMapping) :
    b.Receives (b.addAll engine cs) (cs.map (GivenMapping.gain engine)) := by
  induction cs generalizing b with
  | nil => exact .refl b
  | cons c cs ih => exact (b.receives_addGiven engine c).trans (ih (b.addGiven engine c))

theorem alike_of_reordered (engine : PatternEngine) (h : GivenMapping.Reordered cs cs')
    (htargets : GivenMapping.OneTargetVisibility cs) (b : ProviderBuilder) :
    (b.addAll engine cs).map.Alike (b.addAll engine cs').map := by
  have hcs := b.receives_addAll engine cs
  have hcs' := b.receives_addAll engine cs'
  have hedges : (b.addAll engine cs).map.edges = b.map.edges ++ GivenMapping.edges engine cs := by
    rw [hcs.edges, List.filterMap_map]
    rfl
  have hedges' : (b.addAll engine cs').map.edges =
      b.map.edges ++ GivenMapping.edges engine cs' := by
    rw [hcs'.edges, List.filterMap_map]
    rfl
  have hsources : ∀ f?, (b.addAll engine cs).map.edges.filter (·.source.file? == f?) =
      (b.addAll engine cs').map.edges.filter (·.source.file? == f?) := fun f? => by
    rw [hedges, hedges', List.filter_append, List.filter_append, h.filter_edges]
  refine ⟨fun f => ?_, fun f => ?_, fun f => ?_, ?_, ?_, fun f => ?_⟩
  · rw [ProviderMap.exactTargets, hsources, ← ProviderMap.exactTargets]
  · have hpatterns : ∀ m : ProviderMap, m.patternEdges f =
        (m.edges.filter (·.source.file? == none)).filter (·.source.accepts f) := fun m => by
      rw [ProviderMap.patternEdges, List.filter_filter]
      refine List.filter_congr fun e _ => ?_
      cases e.source.file? <;> simp
    rw [hpatterns, hpatterns, hsources]
  · rw [hcs.declared, hcs'.declared, h.filterMap_settled?, h.head?_offered? htargets]
  · rw [hcs.builtin, hcs'.builtin]
  · rw [hcs.alwaysPublic, hcs'.alwaysPublic]
  · simp only [ProviderMap.targets, hedges, hedges', hcs.builtin, hcs'.builtin,
      List.mem_append, List.mem_map, h.mem_edges]

/-- Whatever a builder knows already, mappings that are given to it leave a map with the same
answers in every order that keeps the order of the mappings of each file and that of the patterns,
if no target is given two visibilities. -/
theorem answers_of_reordered (engine : PatternEngine) (b : ProviderBuilder)
    {cs cs' : List GivenMapping} (h : GivenMapping.Reordered cs cs')
    (htargets : GivenMapping.OneTargetVisibility cs) (o : Overlay) (f includer : FileName) :
    ProviderView.isPrivate ⟨(b.addAll engine cs).map, o⟩ f =
        ProviderView.isPrivate ⟨(b.addAll engine cs').map, o⟩ f ∧
      ProviderView.resolve ⟨(b.addAll engine cs).map, o⟩ f =
        ProviderView.resolve ⟨(b.addAll engine cs').map, o⟩ f ∧
      ProviderView.resolveFor ⟨(b.addAll engine cs).map, o⟩ f includer =
        ProviderView.resolveFor ⟨(b.addAll engine cs').map, o⟩ f includer ∧
      ProviderView.publicCandidates ⟨(b.addAll engine cs).map, o⟩ f includer =
        ProviderView.publicCandidates ⟨(b.addAll engine cs').map, o⟩ f includer := by
  have halike := alike_of_reordered engine h htargets b
  rw [ProviderView.isPrivate_alike halike, ProviderView.resolve_alike halike,
    ProviderView.resolveFor_alike halike, ProviderView.publicCandidates_alike halike]
  exact ⟨rfl, rfl, rfl, rfl⟩

/-- `a.h` is provided by `b.h`, which is public. -/
def toPublic : GivenMapping :=
  ⟨.exact, "a.h", .priv, .quoted "b.h", .pub⟩

/-- `b.h` is private and provided by `c.h`. -/
def fromPrivate : GivenMapping :=
  ⟨.exact, "b.h", .priv, .quoted "c.h", .pub⟩

/-- In both orders `b.h` is private, since it is the source of a mapping. -/
theorem answers_of_swapped :
    GivenMapping.Reordered [toPublic, fromPrivate] [fromPrivate, toPublic] ∧
      GivenMapping.OneTargetVisibility [toPublic, fromPrivate] ∧
      (({} : ProviderBuilder).addAll .standard [toPublic, fromPrivate]).map.declared.find?
          (.quoted "b.h") = some .priv ∧
      ProviderView.isPrivate
          ⟨(({} : ProviderBuilder).addAll .standard [toPublic, fromPrivate]).map, {}⟩
          (.quoted "b.h") =
        ProviderView.isPrivate
          ⟨(({} : ProviderBuilder).addAll .standard [fromPrivate, toPublic]).map, {}⟩
          (.quoted "b.h") ∧
      ProviderView.resolve
          ⟨(({} : ProviderBuilder).addAll .standard [toPublic, fromPrivate]).map, {}⟩
          (.quoted "b.h") =
        ProviderView.resolve
          ⟨(({} : ProviderBuilder).addAll .standard [fromPrivate, toPublic]).map, {}⟩
          (.quoted "b.h") := by
  have hreordered : GivenMapping.Reordered [toPublic, fromPrivate] [fromPrivate, toPublic] :=
    .swap (by decide +kernel) [] []
  have htargets : GivenMapping.OneTargetVisibility [toPublic, fromPrivate] := by
    unfold GivenMapping.OneTargetVisibility
    decide +kernel
  obtain ⟨hprivate, hresolve, -, -⟩ :=
    answers_of_reordered .standard {} hreordered htargets {} (.quoted "b.h") (.quoted "f.cc")
  exact ⟨hreordered, htargets, by decide +kernel, hprivate, hresolve⟩

end ProviderBuilder

end IncludeAudit
