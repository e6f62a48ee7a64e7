import ComponentTags.Directive
import ComponentTags.Outline

/-!
# Expansion of templates

Components are replaced by directives and all other text is copied. A component puts its scope into use before its
content is expanded, and its attributes are read last. The first failure ends the expansion without a result, but
the scopes put into use by then stay in use.
-/

namespace ComponentTags

/-- How an expansion came out, and the scopes in use at its end. -/
structure Expanded where
  /-- The expanded text, or what stopped the expansion. -/
  outcome : Except Failure Text
  /-- The scopes in use. -/
  registry : Registry

mutual

/-- The expansion of a node of the outline of a text. -/
def Node.expand (options : Options) (text : Text) (registry : Registry) : Node → Expanded
  | .text value _ => ⟨.ok value, registry⟩
  | .component c content failure =>
    let (scope, registry) := registry.resolve options.toNaming c.name
    match Node.expandAll options text registry failure content with
    | ⟨.error e, registry⟩ => ⟨.error e, registry⟩
    | ⟨.ok inner, registry⟩ =>
      match attributesIn text c.attributes with
      | .error e => ⟨.error e, registry⟩
      | .ok attributes =>
        let content := c.closing.map fun _ => inner
        ⟨.ok (Directive.component options.closeSelfClosing scope.name c.name
          (attributes.map (·.item)) content), registry⟩

/-- The expansion of nodes one after another; the failure behind the last one is met last. -/
def Node.expandAll (options : Options) (text : Text) (registry : Registry) (failure : Option Failure) :
    List Node → Expanded
  | [] =>
    match failure with
    | none => ⟨.ok [], registry⟩
    | some e => ⟨.error e, registry⟩
  | node :: nodes =>
    match Node.expand options text registry node with
    | ⟨.error e, registry⟩ => ⟨.error e, registry⟩
    | ⟨.ok front, registry⟩ =>
      match Node.expandAll options text registry failure nodes with
      | ⟨.error e, registry⟩ => ⟨.error e, registry⟩
      | ⟨.ok back, registry⟩ => ⟨.ok (front ++ back), registry⟩

end

/-- The two things that can be asked of a template. -/
inductive Request where
  /-- The expanded text alone. -/
  | body
  /-- The expanded text behind the imports of the scopes in use. -/
  | document
  deriving DecidableEq, Repr

/-- The expansion of a text, with the scopes of `registry` in use already. -/
def expandBody (options : Options) (text : Text) (registry : Registry) : Expanded :=
  let outline := Outline.ofText text
  Node.expandAll options text registry outline.failure outline.nodes

/-- The imports of the scopes in use, an empty line, and the expanded text; the text alone if no scope is in use. -/
def expandDocument (options : Options) (text : Text) (registry : Registry) : Expanded :=
  match expandBody options text registry with
  | ⟨.ok body, []⟩ => ⟨.ok body, []⟩
  | ⟨.ok body, scope :: scopes⟩ =>
    ⟨.ok (Directive.preamble (scope :: scopes) ++ '\n' :: body), scope :: scopes⟩
  | ⟨.error e, registry⟩ => ⟨.error e, registry⟩

/-- The answer to one request. -/
def answer (options : Options) (text : Text) (registry : Registry) : Request → Expanded
  | .body => expandBody options text registry
  | .document => expandDocument options text registry

/-- The answers to requests made one after another, each with the scopes in use that the ones before it left. -/
def answers (options : Options) (text : Text) (registry : Registry) : List Request → List Expanded
  | [] => []
  | request :: requests =>
    let expanded := answer options text registry request
    expanded :: answers options text expanded.registry requests

/-- A template expanded by itself. -/
def expand (options : Options) (text : Text) : Except Failure Text :=
  (expandDocument options text []).outcome

end ComponentTags
