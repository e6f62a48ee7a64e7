import ComponentTags.Diagnostic
import ComponentTags.Proofs.FaultPlaces
import ComponentTags.Proofs.Registry

/-!
# The course of an expansion

An expansion enters components one after another and writes pieces of text, until it comes to the end or to a failure.
Which components it enters, and which failure stops it, is settled by the text alone. The options only decide how the
pieces read and what the scopes are called, and the scopes in use decide nothing. So an expansion is given by three
things: its course, its pieces, and the scopes of the components entered, put into use in order.

Two consequences are drawn. Requests about one text do not disturb each other, also after a failure. And whether a text
is refused, and for which fault, does not depend on the options, so that an editor sees what any other run sees.
-/

namespace ComponentTags

/-- What an expansion goes through, whatever the options and the scopes in use are. -/
structure Course where
  /-- The components that are entered, in this order. -/
  entered : List Component
  /-- The failure that ends the course, if any. -/
  failure : Option Failure

/-- One course after another, unless the first one ends at a failure. -/
def Course.append (a b : Course) : Course :=
  match a.failure with
  | none => ⟨a.entered ++ b.entered, b.failure⟩
  | some e => ⟨a.entered, some e⟩

/-- What is wrong with the attribute list of a component. -/
def Component.attributeFailure (text : Text) (c : Component) : Option Failure :=
  match attributesIn text c.attributes with
  | .ok _ => none
  | .error e => some e

mutual

/-- A component is entered, then its content is gone through, and its attributes are read last. -/
def Node.course (text : Text) : Node → Course
  | .text _ _ => ⟨[], none⟩
  | .component c content failure =>
    let inner := (Node.courseAll text failure content).append ⟨[], c.attributeFailure text⟩
    ⟨c :: inner.entered, inner.failure⟩

/-- Nodes are gone through one after another; the failure behind the last one is met last. -/
def Node.courseAll (text : Text) (failure : Option Failure) : List Node → Course
  | [] => ⟨[], failure⟩
  | node :: nodes => (Node.course text node).append (Node.courseAll text failure nodes)

end

/-- A component as its call shows it. -/
structure Called where
  /-- Its name. -/
  name : Text
  /-- It has a closing tag. -/
  paired : Bool
  /-- Its attributes in their order. -/
  attributes : List Attribute
  deriving DecidableEq, Repr

/-- A component with the attributes that stand in its opening tag; a list that cannot be read holds none. -/
def Component.called (text : Text) (c : Component) : Called where
  name := c.name
  paired := c.closing.isSome
  attributes :=
    match attributesIn text c.attributes with
    | .ok found => found.map (·.item)
    | .error _ => []

/-- What an expansion writes at a time. -/
inductive Piece where
  /-- Text as it stands in the template. -/
  | copied (value : Text)
  /-- The call of a component by way of a scope. -/
  | call (scopeName : Text) (called : Called)
  /-- The end of a call. -/
  | endCall
  deriving DecidableEq, Repr

/-- A piece in the expanded text, letter by letter. -/
def Piece.written : Piece → Text
  | copied value => value
  | call scopeName called => spelledCall scopeName called.name called.attributes
  | endCall => spelledEnd

/-- The scope's name and the component of a call. -/
def Piece.call? : Piece → Option (Text × Called)
  | call scopeName called => some (scopeName, called)
  | copied _ | endCall => none

mutual

/-- The pieces of a node: the content of a component stands between its call and the end of that. -/
def Node.pieces (options : Options) (text : Text) : Node → List Piece
  | .text value _ => [.copied value]
  | .component c content _ =>
    .call (options.scope c.name).name (c.called text) ::
      if c.closing.isSome then Node.piecesAll options text content ++ [.endCall]
      else if options.closeSelfClosing then [.endCall] else []

/-- The pieces of nodes one after another. -/
def Node.piecesAll (options : Options) (text : Text) : List Node → List Piece
  | [] => []
  | node :: nodes => Node.pieces options text node ++ Node.piecesAll options text nodes

end

/-- The expansion that follows a course and writes `out` if it comes to the end. -/
def Course.expanded (course : Course) (naming : Naming) (registry : Registry) (out : Text) : Expanded where
  outcome :=
    match course.failure with
    | none => .ok out
    | some e => .error e
  registry := (course.entered.map fun c => naming.scope c.name).foldl Registry.add registry

mutual

/-- The expansion of a node follows its course and writes its pieces. -/
theorem Node.expand_eq (options : Options) (text : Text) (registry : Registry) :
    (node : Node) → Node.expand options text registry node =
      (node.course text).expanded options.toNaming registry ((node.pieces options text).flatMap Piece.written)
  | .text value extent => by simp [Node.expand, Node.course, Node.pieces, Course.expanded, Piece.written]
  | .component c content failure => by
    have hinner := Node.expandAll_eq options text (registry.add (options.scope c.name)) failure content
    simp only [Node.expand, Registry.resolve, Node.course, hinner]
    cases hf : (Node.courseAll text failure content).failure with
    | some e => simp [Course.expanded, Course.append, hf]
    | none =>
      cases ha : attributesIn text c.attributes with
      | error e => simp [Course.expanded, Course.append, Component.attributeFailure, hf, ha]
      | ok found =>
        cases hc : c.closing <;> cases ho : options.closeSelfClosing <;>
          simp [Course.expanded, Course.append, Component.attributeFailure, Component.called, Node.pieces,
            Piece.written, Directive.component, Directive.call_eq_spelledCall, Directive.endCall_eq_spelledEnd,
            hf, ha, hc, ho]

/-- The expansion of nodes one after another follows their courses and writes their pieces. -/
theorem Node.expandAll_eq (options : Options) (text : Text) (registry : Registry) (failure : Option Failure) :
    (nodes : List Node) → Node.expandAll options text registry failure nodes =
      (Node.courseAll text failure nodes).expanded options.toNaming registry
        ((Node.piecesAll options text nodes).flatMap Piece.written)
  | [] => by cases failure <;> simp [Node.expandAll, Node.courseAll, Node.piecesAll, Course.expanded]
  | node :: nodes => by
    simp only [Node.expandAll, Node.courseAll, Node.expand_eq options text registry node]
    cases hf : (node.course text).failure with
    | some e => simp [Course.expanded, Course.append, hf]
    | none =>
      have hrest := Node.expandAll_eq options text
        (((node.course text).entered.map fun c => options.scope c.name).foldl Registry.add registry) failure nodes
      simp only [Course.expanded, hf, hrest]
      cases hr : (Node.courseAll text failure nodes).failure <;>
        simp [Course.append, Node.piecesAll, hf, hr]

end

/-- The course of an outline of a text. -/
def Outline.course (text : Text) (o : Outline) : Course := Node.courseAll text o.failure o.nodes

/-- The pieces of an outline of a text. -/
def Outline.pieces (options : Options) (text : Text) (o : Outline) : List Piece :=
  Node.piecesAll options text o.nodes

/-- The expansion of a text follows its course and writes its pieces. -/
theorem expandBody_eq (options : Options) (text : Text) (registry : Registry) :
    expandBody options text registry =
      ((Outline.ofText text).course text).expanded options.toNaming registry
        (((Outline.ofText text).pieces options text).flatMap Piece.written) :=
  Node.expandAll_eq options text registry _ _

/-- An expanded text behind the imports of scopes, if there are any. -/
def withImports (scopes : List Scope) (body : Text) : Text :=
  match scopes with
  | [] => body
  | _ :: _ => Directive.preamble scopes ++ '\n' :: body

/-- A document is the expansion of its text behind the imports, with the same scopes in use. -/
theorem expandDocument_eq (options : Options) (text : Text) (registry : Registry) :
    expandDocument options text registry =
      ⟨(expandBody options text registry).outcome.map (withImports (expandBody options text registry).registry),
        (expandBody options text registry).registry⟩ := by
  rw [expandDocument]
  rcases expandBody options text registry with ⟨outcome, used⟩
  cases outcome with
  | error e => rfl
  | ok body => cases used <;> rfl

/-- A text is expanded with its own scopes in use as it is with none: they are all put into use again. -/
theorem expandBody_again (options : Options) (text : Text) :
    expandBody options text (expandBody options text []).registry = expandBody options text [] := by
  simp only [expandBody_eq options text, Course.expanded]
  congr 1
  refine Registry.foldl_add_of_mem fun scope hscope => ?_
  rw [Registry.foldl_add_nil, List.mem_eraseDups]
  exact hscope

/-- Both requests leave the same scopes in use. -/
theorem answer_registry (options : Options) (text : Text) (registry : Registry) (request : Request) :
    (answer options text registry request).registry = (expandBody options text registry).registry := by
  cases request with
  | body => rfl
  | document => rw [answer, expandDocument_eq]

/-- What a request is answered hangs on the scopes in use only by way of the expansion. -/
theorem answer_congr {options : Options} {text : Text} {registry other : Registry}
    (h : expandBody options text registry = expandBody options text other) (request : Request) :
    answer options text registry request = answer options text other request := by
  cases request with
  | body => exact h
  | document => simp only [answer, expandDocument_eq, h]

/-- The run over all requests; at each of them the scopes in use are none, or those of the text. -/
theorem answers_eq_map {options : Options} {text : Text} {registry : Registry}
    (h : expandBody options text registry = expandBody options text []) (requests : List Request) :
    answers options text registry requests = requests.map (answer options text []) := by
  induction requests generalizing registry with
  | nil => rfl
  | cons request requests ih =>
    have hused : expandBody options text (answer options text registry request).registry =
        expandBody options text [] := by
      rw [answer_registry, h]
      exact expandBody_again options text
    rw [answers, List.map_cons, ih hused, answer_congr h]

/-- Each of several requests about a text, made one after another, is answered as if it were the only one, with a text
or with a failure, and the scopes in use are the same after each as after the first. -/
theorem answers_eq_fresh (options : Options) (text : Text) (first : Request) (requests : List Request) :
    answers options text [] (first :: requests) = (first :: requests).map (answer options text []) ∧
      (answers options text [] (first :: requests)).map (·.registry) =
        (first :: requests).map fun _ => (answer options text [] first).registry := by
  have hanswers := answers_eq_map (rfl : expandBody options text [] = _) (first :: requests)
  refine ⟨hanswers, ?_⟩
  rw [hanswers, List.map_map]
  refine List.map_congr_left fun request _ => ?_
  rw [Function.comp_apply, answer_registry, answer_registry]

/-- What is entered in one course after another is entered in one of them. -/
theorem Course.mem_append {a b : Course} {c : Component} (h : c ∈ (a.append b).entered) :
    c ∈ a.entered ∨ c ∈ b.entered := by
  unfold append at h
  split at h
  · exact List.mem_append.mp h
  · exact .inl h

mutual

/-- Only components of the node are entered. -/
theorem Node.mem_components_of_entered {text : Text} {c : Component} :
    (node : Node) → c ∈ (node.course text).entered → c ∈ node.components
  | .text _ _, h => by simp [Node.course] at h
  | .component own content failure, h => by
    rw [Node.components, List.mem_append, List.mem_singleton]
    simp only [Node.course, List.mem_cons] at h
    rcases h with h | h
    · exact .inr h
    · rcases Course.mem_append h with h | h
      · exact .inl (Node.mem_componentsAll_of_entered content h)
      · cases h

theorem Node.mem_componentsAll_of_entered {text : Text} {failure : Option Failure} {c : Component} :
    (nodes : List Node) → c ∈ (Node.courseAll text failure nodes).entered → c ∈ Node.componentsAll nodes
  | [], h => by simp [Node.courseAll] at h
  | node :: nodes, h => by
    rw [Node.componentsAll, List.mem_append]
    rcases Course.mem_append h with h | h
    · exact .inl (Node.mem_components_of_entered node h)
    · exact .inr (Node.mem_componentsAll_of_entered nodes h)

end

/-- The identifiers of the components entered, each at its first place. -/
def Course.identifiers (course : Course) : List Text :=
  ((course.entered.map (·.name)).map macroName).eraseDups

/-- Each identifier is that of a component. -/
theorem Outline.exists_component_of_identifier {text identifier : Text} {o : Outline}
    (h : identifier ∈ (o.course text).identifiers) : ∃ c ∈ o.components, macroName c.name = identifier := by
  rw [Course.identifiers, List.mem_eraseDups, List.mem_map] at h
  obtain ⟨name, hname, rfl⟩ := h
  obtain ⟨c, hc, rfl⟩ := List.mem_map.mp hname
  exact ⟨c, Node.mem_componentsAll_of_entered o.nodes hc, rfl⟩

/-- The scopes in use after the expansion of a text. -/
theorem expandBody_registry (options : Options) (text : Text) :
    (expandBody options text []).registry = ((Outline.ofText text).course text).identifiers.map options.importOf := by
  rw [Course.identifiers, ← Registry.foldl_add_scope, expandBody_eq, List.map_map]
  rfl

/-- The outcome of the expansion of a text. -/
theorem expandDocument_outcome (options : Options) (text : Text) (registry : Registry) :
    (expandDocument options text registry).outcome =
      match ((Outline.ofText text).course text).failure with
      | none => .ok (withImports (expandBody options text registry).registry
          (((Outline.ofText text).pieces options text).flatMap Piece.written))
      | some e => .error e := by
  rw [expandDocument_eq, expandBody_eq, Course.expanded]
  cases ((Outline.ofText text).course text).failure <;> rfl

/-- Under any two options a text expands, or it is refused for the same fault. The scopes in use at the end are as many
under both, and those at the same place come from the same identifier of a component. An editor, which knows of no
options, is told of that fault with its place, its message and its kind, and of nothing if the text expands. -/
theorem expandDocument_options_agree (text : Text) (a b : Options) :
    ((∃ outA outB, (expandDocument a text []).outcome = .ok outA ∧ (expandDocument b text []).outcome = .ok outB ∧
        diagnose text = []) ∨
      ∃ f, (expandDocument a text []).outcome = .error (.fault f) ∧
        (expandDocument b text []).outcome = .error (.fault f) ∧
        let span := (LineIndex.ofText text).span f.extent
        diagnose text = [{
          startLine := span.start.line - 1, startCharacter := span.start.column - 1
          stopLine := span.stop.line - 1, stopCharacter := span.stop.column - 1
          message := f.cause.message, severity := 1, code := f.cause.kind.label, tool := "jrsx".toList }]) ∧
    ∃ identifiers : List Text,
      (∀ identifier ∈ identifiers, ∃ c ∈ (Outline.ofText text).components, macroName c.name = identifier) ∧
        (expandDocument a text []).registry = identifiers.map a.importOf ∧
        (expandDocument b text []).registry = identifiers.map b.importOf := by
  have houtcome (options : Options) := expandDocument_outcome options text []
  have hregistry (options : Options) : (expandDocument options text []).registry =
      ((Outline.ofText text).course text).identifiers.map options.importOf := by
    rw [expandDocument_eq, expandBody_registry]
  refine ⟨?_, _, fun _ => Outline.exists_component_of_identifier, hregistry a, hregistry b⟩
  cases hf : ((Outline.ofText text).course text).failure with
  | none =>
    rw [hf] at houtcome
    refine .inl ⟨_, _, houtcome a, houtcome b, ?_⟩
    rw [diagnose, expand, houtcome]
  | some e =>
    rw [hf] at houtcome
    obtain ⟨f, rfl, -⟩ := expandDocument_error_wellPlaced (houtcome a)
    refine .inr ⟨f, houtcome a, houtcome b, ?_⟩
    rw [diagnose, expand, houtcome]
    rfl

end ComponentTags
