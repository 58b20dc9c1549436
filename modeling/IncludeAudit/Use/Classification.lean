import IncludeAudit.Policy
import IncludeAudit.Symbol.Traits
import IncludeAudit.Use.Basic

/-!
# Classifying uses

A use needs the definition of its symbol, or only a declaration, or nothing at all. The first rule
of an ordered list that applies decides, and the last rule always applies. Questions of the language
that the text of a use does not answer go to a `CompletenessOracle`.
-/

namespace IncludeAudit

/-- What a use needs. -/
inductive UseKind where
  /-- The definition. -/
  | full
  /-- A declaration. -/
  | forwardDeclarable
  deriving DecidableEq, Repr

/-- What a use needs and the rule that says so. -/
structure Verdict where
  kind : UseKind
  rule : String
  deriving DecidableEq, Repr

/-- Answers to questions of the language. By default they come from the hints of the use and the
traits of the symbol. -/
structure CompletenessOracle where
  /-- Whether a complete type is needed, if that is known. -/
  requiresCompleteType : Use → Symbol → Option Bool := fun _ _ => none
  isFinal : Symbol → Bool := fun s => s.traits.isFinal
  isExplicitInstantiation : Use → Bool := fun u => u.hints.explicitInstantiation

namespace Classification

/-- What a rule concludes. -/
inductive Conclusion where
  /-- The use needs nothing. -/
  | skip
  | needs (kind : UseKind)
  deriving DecidableEq, Repr

/-- What a rule may look at. -/
structure Case where
  policy : Policy
  oracle : CompletenessOracle
  use : Use
  symbol : Symbol

/-- A condition and a conclusion. -/
structure Rule where
  name : String
  applies : Case → Bool
  conclusion : Conclusion

/-- The symbol is in a system namespace of the table or of the policy. -/
def inSystemNamespace (c : Case) : Bool :=
  c.symbol.isSystem || c.policy.systemNamespaces.any c.symbol.key.isIn

/-- The use looks into the type or makes a value of it. -/
def inCompleteTypeContext (c : Case) : Bool :=
  let h := c.use.hints
  h.dereferenced || h.memberAccess || h.valueUse || h.sizeofOrAlignof || h.baseClass
    || h.byValueSignature

/-- The type is the element of a container that needs it complete. -/
def inCompleteContainer (c : Case) : Bool :=
  c.use.hints.container.any c.policy.requiresCompleteElements

/-- The rules in their order. -/
def rules : List Rule :=
  [ ⟨"implicit", fun c => c.use.hints.implicit, .skip⟩,
    ⟨"local_to_declaration", fun c => c.use.hints.localToDeclaration, .skip⟩,
    ⟨"explicit_instantiation", fun c => c.oracle.isExplicitInstantiation c.use, .needs .full⟩,
    ⟨"system_namespace", inSystemNamespace, .needs .full⟩,
    ⟨"not_forward_declarable", fun c => !c.symbol.key.kind.isForwardDeclarable, .needs .full⟩,
    ⟨"inline_namespace", fun c => c.symbol.traits.inInlineNamespace, .needs .full⟩,
    ⟨"default_template_args", fun c => c.symbol.traits.hasDefaultTemplateArgs, .needs .full⟩,
    ⟨"complete_type_context", inCompleteTypeContext, .needs .full⟩,
    ⟨"specialization_selector", fun c => c.use.hints.specializationSelector, .needs .full⟩,
    ⟨"complete_type_container", inCompleteContainer, .needs .full⟩,
    ⟨"final_pointer_or_reference",
      fun c => c.use.hints.pointerOrReference && c.oracle.isFinal c.symbol,
      .needs .forwardDeclarable⟩,
    ⟨"pointer_or_reference", fun c => c.use.hints.pointerOrReference, .needs .forwardDeclarable⟩,
    ⟨"dependent", fun c => c.use.hints.dependent, .needs .forwardDeclarable⟩,
    ⟨"oracle_complete", fun c => c.oracle.requiresCompleteType c.use c.symbol == some true,
      .needs .full⟩,
    ⟨"oracle_incomplete", fun c => c.oracle.requiresCompleteType c.use c.symbol == some false,
      .needs .forwardDeclarable⟩,
    ⟨"ambiguous", fun _ => true, .needs .forwardDeclarable⟩ ]

/-- The names of the rules in their order. -/
def ruleNames : List String :=
  rules.map (·.name)

end Classification

/-- What a use needs, or nothing if it needs nothing. -/
def classify (policy : Policy) (oracle : CompletenessOracle) (u : Use) (s : Symbol) :
    Option Verdict :=
  match Classification.rules.find? fun r => r.applies ⟨policy, oracle, u, s⟩ with
  | some ⟨name, _, .needs kind⟩ => some ⟨kind, name⟩
  | _ => none

end IncludeAudit
