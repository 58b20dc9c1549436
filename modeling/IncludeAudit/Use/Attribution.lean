import IncludeAudit.Diagnostic.AnalysisError
import IncludeAudit.Graph.IncludeGraph
import IncludeAudit.Symbol.Table
import IncludeAudit.Use.Basic

/-!
# Attributing uses

A use is attributed to the owner of one declaration of its symbol. Its candidates are the
declarations of the specialization that it names, if there are any, else the unspecialized ones,
else all; of these the reachable ones, if there are any. Among the candidates the first of these
rules that finds one decides, and it takes the nearest, and of equally near ones the first
discovered:

1. an `extern template`, if some candidate is the matching definition;
2. a declaration whose file intends to provide the specialization;
3. a definition;
4. any declaration.

An `Attributor` remembers its answers, and it remembers which file defines each specialization by
explicit instantiation: a second file that does so is fatal. The number of candidates is part of
what an answer is remembered by, so a table that has grown gets new answers.
-/

namespace IncludeAudit

/-- The rule that chose the file of a use. -/
inductive AttributionRule where
  /-- The file of a using-declaration. -/
  | usingDeclaration
  | instantiationDeclaration
  | intendsToProvide
  | nearestDefinition
  | nearestDeclaration
  deriving DecidableEq, Repr

/-- The file to which a use is attributed. -/
structure Attribution where
  /-- The declaration, unless it is the file of a using-declaration. -/
  declaration : Option DeclId
  file : FileName
  rule : AttributionRule
  deriving DecidableEq, Repr

/-- A declaration that a use may be attributed to. -/
structure Candidate where
  id : DeclId
  declaration : Declaration
  /-- The hops from the referencing file, if there is a path. -/
  distance : Option Nat
  deriving DecidableEq, Repr

namespace Candidate

/-- True if the referencing file reaches the declaration. -/
def isReachable (c : Candidate) : Bool :=
  c.distance.isSome

/-- True if the first is nearer, or as near and discovered no later. What is out of reach is
farthest. -/
def le (a b : Candidate) : Bool :=
  match a.distance, b.distance with
  | some m, some n => m < n || (m == n && a.id ≤ b.id)
  | some _, none => true
  | none, some _ => false
  | none, none => a.id ≤ b.id

/-- The nearest of the candidates with a property. -/
def nearest? (p : Candidate → Bool) (cs : List Candidate) : Option Candidate :=
  (cs.filter p).foldl (fun best c => some (match best with
    | none => c
    | some b => if b.le c then b else c)) none

/-- All declarations of a symbol with their distance from a file. -/
def ofSymbol (t : SymbolTable) (reach : Reachability) (source : FileName) (k : SymbolKey) :
    List Candidate :=
  (t.candidates k).map fun (id, d) => ⟨id, d, reach source d.file⟩

/-- The candidates with a property, or all of them if none has it. -/
def preferring (p : Candidate → Bool) (cs : List Candidate) : List Candidate :=
  let chosen := cs.filter p
  if chosen.isEmpty then cs else chosen

/-- True of a declaration with exactly the given specialization. -/
def isOf (specialization : Option String) (c : Candidate) : Bool :=
  c.declaration.specialization == specialization

/-- The candidates that suit the specialization that a use names. -/
def suiting (specialization : Option String) (cs : List Candidate) : List Candidate :=
  match specialization with
  | some args =>
    let chosen := cs.filter (isOf (some args))
    if chosen.isEmpty then preferring (isOf none) cs else chosen
  | none => preferring (isOf none) cs

/-- The candidates of a use. -/
def ofUse (t : SymbolTable) (reach : Reachability) (u : Use) : List Candidate :=
  preferring isReachable
    (suiting u.specialization (ofSymbol t reach u.referencingFile u.symbol))

/-- True of an explicit instantiation in the given form. -/
def isInstantiation (i : Instantiation) (c : Candidate) : Bool :=
  c.declaration.isInstantiation i

/-- The candidate that the rules choose, and the rule that chooses it. -/
def select (cs : List Candidate) : Option (Candidate × AttributionRule) :=
  let externs :=
    if cs.any (isInstantiation .definition) then nearest? (isInstantiation .declaration) cs
    else none
  (externs.map (·, .instantiationDeclaration)).or <|
    ((nearest? (·.declaration.intendsToProvide) cs).map (·, .intendsToProvide)).or <|
      ((nearest? (·.declaration.isDefinition) cs).map (·, .nearestDefinition)).or <|
        (nearest? (fun _ => true) cs).map (·, .nearestDeclaration)

/-- The reachable explicit instantiation definitions, nearest first. -/
def definitions (cs : List Candidate) : List Candidate :=
  (cs.filter fun c => c.isReachable && c.isInstantiation .definition).mergeSort le

/-- The declarations that claim their specialization once the first candidate is chosen. -/
def claims (chosen : Candidate) (cs : List Candidate) : List DeclId :=
  ((if chosen.isInstantiation .definition then [chosen] else []) ++ definitions cs).map (·.id)

end Candidate

/-- What a remembered answer depends on. -/
structure Question where
  symbol : SymbolKey
  specialization : Option String
  referencingFile : FileName
  explicitInstantiation : Bool
  candidates : Nat
  deriving DecidableEq, Repr

/-- The question that a use asks of a table. -/
def Question.ofUse (t : SymbolTable) (u : Use) : Question :=
  ⟨u.symbol, u.specialization, u.referencingFile, u.hints.explicitInstantiation,
    (t.candidates u.symbol).length⟩

/-- Remembered answers and explicit instantiation definitions. -/
structure Attributor where
  answers : OrderedMap Question Attribution := {}
  /-- The definition that was seen first of each specialization. -/
  instantiations : OrderedMap (SymbolKey × String) DeclId := {}
  /-- The number of answers that were remembered. -/
  hits : Nat := 0

namespace Attributor

/-- Enters an explicit instantiation definition. It is an error if another file has one of the same
specialization. -/
def register (a : Attributor) (t : SymbolTable) (id : DeclId) : Except AnalysisError Attributor :=
  match t.declaration? id with
  | none => .ok a
  | some d =>
    let specialization := d.specialization.getD ""
    match (a.instantiations.find? (d.symbol, specialization)).bind t.declaration? with
    | none => .ok { a with instantiations := a.instantiations.set (d.symbol, specialization) id }
    | some first =>
      if first.file = d.file then .ok a
      else .error (.doubleInstantiation d.symbol.name specialization first.file d.file)

/-- Enters definitions until one is an error. Those before it stay. -/
def registerAll (a : Attributor) (t : SymbolTable) :
    List DeclId → Except AnalysisError Unit × Attributor
  | [] => (.ok (), a)
  | id :: ids =>
    match a.register t id with
    | .error e => (.error e, a)
    | .ok a => a.registerAll t ids

/-- The answer that needs no declaration. -/
def usingAnswer? (u : Use) (usingIsAUse : Bool) : Option Attribution :=
  match u.through with
  | some ref =>
    if usingIsAUse && ref.isUsingDeclaration then some ⟨none, ref.file, .usingDeclaration⟩ else none
  | none => none

/-- Chooses a declaration among the candidates of a use and remembers it. -/
def choose (a : Attributor) (t : SymbolTable) (reach : Reachability) (u : Use) :
    Except AnalysisError (Option Attribution) × Attributor :=
  let cs := Candidate.ofUse t reach u
  match Candidate.select cs with
  | none => (.ok none, a)
  | some (chosen, rule) =>
    match a.registerAll t (Candidate.claims chosen cs) with
    | (.error e, a) => (.error e, a)
    | (.ok (), a) =>
      let found : Attribution := ⟨some chosen.id, chosen.declaration.owner, rule⟩
      (.ok (some found), { a with answers := a.answers.set (Question.ofUse t u) found })

/-- The file to which a use is attributed; nothing if the symbol has no declaration. -/
def answer (a : Attributor) (t : SymbolTable) (reach : Reachability) (u : Use)
    (usingIsAUse : Bool) : Except AnalysisError (Option Attribution) × Attributor :=
  match usingAnswer? u usingIsAUse with
  | some known => (.ok (some known), a)
  | none =>
    match a.answers.find? (Question.ofUse t u) with
    | some known => (.ok (some known), { a with hits := a.hits + 1 })
    | none => a.choose t reach u

end Attributor

end IncludeAudit
