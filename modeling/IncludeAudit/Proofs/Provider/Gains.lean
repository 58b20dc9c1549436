import IncludeAudit.Proofs.General
import IncludeAudit.Proofs.Ordered.Map
import IncludeAudit.Provider.Map

/-!
# What a builder receives

A mapping or a symbol adds something to the builder that it is given to, and `Receives` says what
several of them add in order. What is known of the visibility of a file has three ranks: what the
last gain says that settles it, what was known before, and what the first gain says that only offers
it.

* `receives_addGiven`: what a mapping adds;
* `receives_addHeader`: what a header of a symbol adds.
-/

namespace IncludeAudit

/-- What is added to a builder at once. -/
inductive Gain where
  | edge (e : ProviderEdge)
  /-- A pattern that cannot be read, in the place of its edge. -/
  | refusal (pattern reason : String)
  /-- A header for a symbol that is known by name. -/
  | header (symbol : String) (file : FileName) (visibility : Visibility)

namespace Gain

/-- The edge, if there is one. -/
def edge? : Gain → Option ProviderEdge
  | edge e => some e
  | refusal .. | header .. => none

/-- The warning about a pattern that cannot be read. It names the pattern and the reason, and no
place. -/
def diagnostic? : Gain → Option Diagnostic
  | refusal pattern reason => some {
      severity := .warning
      message := "skipping mapping entry: cannot compile pattern '" ++ pattern ++ "': " ++ reason
      code := some "W0001" }
  | edge _ | header .. => none

/-- The visibility that a file has from now on: that at the beginning of an edge, and that of the
header of a symbol. -/
def settled? (f : FileName) : Gain → Option Visibility
  | edge e => if e.source.file? = some f then some e.visibility else none
  | header _ g v => if g = f then some v else none
  | refusal .. => none

/-- The visibility that a file has if nothing else is known of it: that at the end of an edge. -/
def offered? (f : FileName) : Gain → Option Visibility
  | edge e => if e.target = f then some e.targetVisibility else none
  | refusal .. | header .. => none

/-- The header of a symbol. -/
def header? (symbol : String) : Gain → Option FileName
  | header s g _ => if s = symbol then some g else none
  | edge _ | refusal .. => none

end Gain

namespace ProviderBuilder

/-- The second builder is the first one with what it was given, in order. -/
structure Receives (b b' : ProviderBuilder) (gains : List Gain) : Prop where
  edges : b'.map.edges = b.map.edges ++ gains.filterMap Gain.edge?
  /-- A file has the visibility that was settled last, else the one that it had, else the one that
  was offered first. -/
  declared : ∀ f, b'.map.declared.find? f = (gains.filterMap (Gain.settled? f)).getLast?.or
    ((b.map.declared.find? f).or (gains.filterMap (Gain.offered? f)).head?)
  /-- The headers of a symbol come behind those that it had, each once. -/
  symbols : ∀ symbol, b'.map.symbolProviders symbol = b.map.symbolProviders symbol ++
    ((gains.filterMap (Gain.header? symbol)).removeAll (b.map.symbolProviders symbol)).eraseDups
  builtin : b'.map.builtin = b.map.builtin
  alwaysPublic : b'.map.alwaysPublic = b.map.alwaysPublic
  log : b'.log = b.log ++ gains.filterMap Gain.diagnostic?

variable {b b' b'' : ProviderBuilder} {gains gains' : List Gain}

theorem Receives.refl (b : ProviderBuilder) : b.Receives b [] where
  edges := (List.append_nil _).symm
  declared f := by simp
  symbols symbol := (List.append_nil _).symm
  builtin := rfl
  alwaysPublic := rfl
  log := (List.append_nil _).symm

theorem Receives.trans (h : b.Receives b' gains) (h' : b'.Receives b'' gains') :
    b.Receives b'' (gains ++ gains') where
  edges := by rw [h'.edges, h.edges, List.filterMap_append, List.append_assoc]
  declared f := by
    rw [h'.declared, h.declared, List.filterMap_append, List.filterMap_append,
      List.getLast?_append, List.head?_append]
    simp only [Option.or_assoc]
  symbols symbol := by
    rw [h'.symbols, h.symbols, List.filterMap_append, eraseDups_removeAll_append,
      List.append_assoc]
  builtin := h'.builtin.trans h.builtin
  alwaysPublic := h'.alwaysPublic.trans h.alwaysPublic
  log := by rw [h'.log, h.log, List.filterMap_append, List.append_assoc]

/-! ## One gain -/

/-- What one gain leaves, without the lists of gains. -/
theorem Receives.one {g : Gain} (hedges : b'.map.edges = b.map.edges ++ g.edge?.toList)
    (hdeclared : ∀ f, b'.map.declared.find? f =
      (g.settled? f).or ((b.map.declared.find? f).or (g.offered? f)))
    (hsymbols : ∀ symbol, b'.map.symbolProviders symbol = b.map.symbolProviders symbol ++
      (g.header? symbol).toList.removeAll (b.map.symbolProviders symbol))
    (hbuiltin : b'.map.builtin = b.map.builtin)
    (halwaysPublic : b'.map.alwaysPublic = b.map.alwaysPublic)
    (hlog : b'.log = b.log ++ g.diagnostic?.toList) : b.Receives b' [g] where
  edges := by rw [hedges, filterMap_singleton]
  declared f := by
    rw [hdeclared, filterMap_singleton, filterMap_singleton, Option.head?_toList]
    cases g.settled? f <;> rfl
  symbols symbol := by rw [hsymbols, filterMap_singleton, eraseDups_removeAll_toList]
  builtin := hbuiltin
  alwaysPublic := halwaysPublic
  log := by rw [hlog, filterMap_singleton]

/-! ## Steps of a builder -/

theorem find?_declared_markVisibility (b : ProviderBuilder) (f g : FileName) (v : Visibility) :
    (b.markVisibility g v).map.declared.find? f =
      (if g = f then some v else none).or (b.map.declared.find? f) := by
  rw [markVisibility, OrderedMap.set, OrderedMap.find?_upsert]
  simp only [eq_comm (a := f)]
  split <;> simp

theorem find?_declared_suggestVisibility (b : ProviderBuilder) (f g : FileName) (v : Visibility) :
    (b.suggestVisibility g v).map.declared.find? f =
      (b.map.declared.find? f).or (if g = f then some v else none) := by
  rw [suggestVisibility, OrderedMap.setIfAbsent, OrderedMap.find?_upsert]
  simp only [eq_comm (a := f)]
  split
  · rename_i hf
    rw [← hf]
    cases b.map.declared.find? g <;> rfl
  · rw [Option.or_none]

/-- The beginning of an edge is marked before its end, so the end does not count if both are the
same file. -/
theorem receives_addEdge (b : ProviderBuilder) (e : ProviderEdge) :
    b.Receives (b.addEdge e) [.edge e] := by
  rw [addEdge]
  cases hfile : e.source.file? with
  | none =>
    refine .one rfl (fun f => ?_) (fun symbol => (List.append_nil _).symm) rfl rfl
      (List.append_nil _).symm
    simp only [find?_declared_suggestVisibility, Gain.settled?, Gain.offered?, hfile]
    rfl
  | some g =>
    refine .one rfl (fun f => ?_) (fun symbol => (List.append_nil _).symm) rfl rfl
      (List.append_nil _).symm
    simp only [find?_declared_suggestVisibility, find?_declared_markVisibility, Gain.settled?,
      Gain.offered?, hfile, Option.or_assoc, Option.some.injEq]

theorem symbolProviders_addSymbol (b : ProviderBuilder) (name symbol : String) (header : FileName) :
    (b.addSymbol name header).map.symbolProviders symbol = b.map.symbolProviders symbol ++
      (if name = symbol then some header else none).toList.removeAll
        (b.map.symbolProviders symbol) := by
  simp only [ProviderMap.symbolProviders, addSymbol, OrderedMap.addTo, OrderedMap.find?_upsert]
  by_cases hname : symbol = name
  · subst hname
    rw [if_pos rfl, if_pos rfl, Option.getD_some]
    split
    · rename_i hknown
      simp [List.removeAll, hknown]
    · rename_i hnew
      simp [List.removeAll, hnew]
  · rw [if_neg hname, if_neg (Ne.symm hname)]
    exact (List.append_nil _).symm

/-- A header of a symbol, with the visibility of the header. -/
theorem receives_addHeader (b : ProviderBuilder) (symbol : String) (header : FileName)
    (v : Visibility) : b.Receives ((b.markVisibility header v).addSymbol symbol header)
      [.header symbol header v] := by
  refine .one (List.append_nil _).symm (fun f => ?_) (fun name => ?_) rfl rfl
    (List.append_nil _).symm
  · refine (find?_declared_markVisibility b f header v).trans ?_
    rw [Gain.offered?, Option.or_none, Gain.settled?]
  · exact symbolProviders_addSymbol (b.markVisibility header v) symbol name header

end ProviderBuilder

/-! ## Mappings -/

/-- A mapping as it is given to a builder. -/
structure GivenMapping where
  kind : MatchKind
  source : String
  visibility : Visibility
  target : FileName
  targetVisibility : Visibility

namespace GivenMapping

/-- The edge of a mapping whose pattern is read. -/
def edge (c : GivenMapping) (pattern : Pattern) : Gain :=
  .edge ⟨pattern, c.visibility, c.target, c.targetVisibility⟩

/-- What a mapping adds. A file name is a pattern as it stands, a glob is read as it stands, and an
expression is read with anchors around it. -/
def gain (engine : PatternEngine) (c : GivenMapping) : Gain :=
  match c.kind with
  | .exact => c.edge (.exact (.ofText c.source))
  | .glob =>
    match engine.glob c.source with
    | .ok admits => c.edge (.glob c.source admits)
    | .error reason => .refusal c.source reason
  | .regex =>
    match engine.expression ("^(?:" ++ c.source ++ ")$") with
    | .ok admits => c.edge (.regex c.source admits)
    | .error reason => .refusal c.source reason

/-- What a mapping adds is what is read of its pattern. -/
theorem gain_eq (engine : PatternEngine) (c : GivenMapping) :
    c.gain engine = match Pattern.compile engine c.kind c.source with
      | .ok pattern => c.edge pattern
      | .error e => .refusal c.source e.reason := by
  rw [gain]
  cases c.kind with
  | exact => rfl
  | glob =>
    simp only [Pattern.compile, PatternEngine.readGlob]
    cases engine.glob c.source <;> rfl
  | regex =>
    simp only [Pattern.compile, PatternEngine.readWhole]
    cases engine.expression ("^(?:" ++ c.source ++ ")$") <;> rfl

end GivenMapping

namespace ProviderBuilder

/-- A mapping that is given to the builder. -/
def addGiven (b : ProviderBuilder) (engine : PatternEngine) (c : GivenMapping) : ProviderBuilder :=
  b.addMapping engine c.kind c.source c.visibility c.target c.targetVisibility

theorem receives_addGiven (b : ProviderBuilder) (engine : PatternEngine) (c : GivenMapping) :
    b.Receives (b.addGiven engine c) [c.gain engine] := by
  rw [addGiven, addMapping, GivenMapping.gain_eq]
  cases Pattern.compile engine c.kind c.source with
  | ok pattern => exact b.receives_addEdge _
  | error e =>
    exact .one (List.append_nil _).symm (fun f => (Option.or_none).symm)
      (fun symbol => (List.append_nil _).symm) rfl rfl rfl

end ProviderBuilder

end IncludeAudit
