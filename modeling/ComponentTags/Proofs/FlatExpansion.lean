import ComponentTags.Expansion
import ComponentTags.Proofs.Nesting

/-!
# Expansion as one pass over the lexemes

The expansion cuts a window into segments, expands the content of each component as a window of its own, and puts the
results together from the inside out. Its outcome is that of a flat reading: the text has an expansion exactly if its
tags are well nested and every attribute list can be read, and then each lexeme is replaced by its image, in the order
of the text. The images are spelled out here letter by letter, apart from the functions that the expansion writes them
with. The scopes put into use are those of the opening tags, in the same order.

Which failure an expansion reports where several attribute lists are at fault is not part of this comparison.
-/

namespace ComponentTags

/-- A segment with the outline of its content. -/
def Segment.node (text : Text) : Segment → Node
  | .text value extent => .text value extent
  | .component c =>
    match c.content? with
    | none => .component c [] none
    | some content =>
      .component c (Outline.ofWindow text content).nodes (Outline.ofWindow text content).failure

/-- An outline has one node for each segment of its window. -/
theorem Outline.ofWindow_eq (text : Text) (window : Extent) :
    Outline.ofWindow text window =
      ⟨(scanWindow text window).segments.map (·.node text), (scanWindow text window).failure⟩ := by
  have hs : (scanWindow text window).segments.map (·.node text) =
      (scanWindow text window).segments.attach.map fun s => s.val.node text := List.attach_map_val.symm
  rw [ofWindow, hs]
  congr 1
  apply List.map_congr_left
  rintro ⟨segment, hs⟩ -
  cases segment with
  | text value extent => rfl
  | component c =>
    simp only [Segment.node]
    split <;> simp_all

theorem Outline.failure_ofWindow (text : Text) (window : Extent) :
    (Outline.ofWindow text window).failure = (scanWindow text window).failure := by
  rw [Outline.ofWindow_eq]

/-- A component without a closing tag has no content. -/
theorem Segment.node_selfClosing {c : Component} (hc : c.closing = none) (text : Text) :
    (Segment.component c).node text = .component c [] none := by
  simp [node, Component.content?, hc]

/-- A component with a closing tag holds the outline of its content, which is cut to its end. -/
theorem Segment.node_paired {text : Text} {window closing : Extent} {c : Component}
    (hs : .component c ∈ (scanWindow text window).segments) (hc : c.closing = some closing) :
    (Segment.component c).node text =
      .component c (Outline.ofWindow text ⟨c.opening.stop, closing.start⟩).nodes none := by
  have hw := Component.content?_of_closing hc
  have hf := scanWindow_content_failure hs hw
  simp only [node, hw, Outline.failure_ofWindow, hf]

/-- The attribute list of an opening tag can be read. -/
def Lexeme.Readable (text : Text) : Lexeme → Prop
  | .opening _ attributes _ _ => ∃ found, attributesIn text attributes = .ok found
  | .character _ | .closing _ _ => True

/-- The attribute list of an opening tag is at fault. -/
def Lexeme.FailsWith (text : Text) (e : Failure) : Lexeme → Prop
  | .opening _ attributes _ _ => attributesIn text attributes = .error e
  | .character _ | .closing _ _ => False

/-- An attribute list that is at fault cannot be read. -/
theorem Lexeme.FailsWith.not_readable {text : Text} {e : Failure} {l : Lexeme} (h : l.FailsWith text e) :
    ¬l.Readable text := by
  cases l with
  | character c => exact h.elim
  | closing name extent => exact h.elim
  | opening name attributes extent selfClosing =>
    rintro ⟨found, hf⟩
    simp_all [FailsWith]

/-- An attribute as an argument, letter by letter: a name alone, or a name with its value. -/
def Attribute.spelled : Attribute → Text
  | shorthand key => key
  | named key value => key ++ '=' :: value

/-- The call of a component by way of a scope, letter by letter. -/
def spelledCall (scopeName name : Text) (attributes : List Attribute) : Text :=
  "\x7b% call ".toList ++ scopeName ++ "::".toList ++ macroName name ++ "(".toList ++
    ", ".toList.intercalate (attributes.map (·.spelled)) ++ ") %\x7d".toList

/-- The end of a call, letter by letter. -/
def spelledEnd : Text := "\x7b% endcall %\x7d".toList

/-- The directive for a call is spelled like that. -/
theorem Directive.call_eq_spelledCall (scopeName name : Text) (attributes : List Attribute) :
    Directive.call scopeName name attributes = spelledCall scopeName name attributes := by
  have hargument : Attribute.argument = Attribute.spelled := by
    funext a
    cases a <;> rfl
  delta Directive.call spelledCall joinWith
  rw [hargument]

/-- The directive that ends a call is spelled like that. -/
theorem Directive.endCall_eq_spelledEnd : Directive.endCall = spelledEnd := by
  delta Directive.endCall spelledEnd
  rfl

/-- What stands for a lexeme in the expansion: text is copied, an opening tag becomes the call of its component with
the attributes in their order, and a closing tag the end of a call. A self-closing tag has an end of its own
only if asked for. A tag whose attributes cannot be read has no image. -/
def Lexeme.image (options : Options) (text : Text) : Lexeme → Text
  | .character c => [c]
  | .opening name attributes _ selfClosing =>
    match attributesIn text attributes with
    | .error _ => []
    | .ok found =>
      spelledCall (macroName name ++ options.scopeSuffix) name (found.map (·.item)) ++
        if selfClosing && options.closeSelfClosing then spelledEnd else []
  | .closing _ _ => spelledEnd

/-- The image of an opening tag whose attributes can be read, as directives. -/
theorem Lexeme.image_opening {options : Options} {text name : Text} {attributes extent : Extent} {selfClosing : Bool}
    {found : List (Placed Attribute)} (h : attributesIn text attributes = .ok found) :
    (Lexeme.opening name attributes extent selfClosing).image options text =
      Directive.call (options.scope name).name name (found.map (·.item)) ++
        if selfClosing && options.closeSelfClosing then Directive.endCall else [] := by
  simp only [image, h, Directive.call_eq_spelledCall, Directive.endCall_eq_spelledEnd, Naming.scope]

/-- The image of a closing tag is the directive that ends a call. -/
theorem Lexeme.image_closing (options : Options) (text name : Text) (extent : Extent) :
    (Lexeme.closing name extent).image options text = Directive.endCall := by
  rw [image, Directive.endCall_eq_spelledEnd]

/-- The scope that an opening tag puts into use. -/
def Lexeme.scope? (naming : Naming) : Lexeme → Option Scope
  | .opening name _ _ _ => some (naming.scope name)
  | .character _ | .closing _ _ => none

section Characters

variable (text value : Text)

theorem characters_readable : ∀ l ∈ value.map Lexeme.character, l.Readable text := by
  intro l hl
  obtain ⟨c, -, rfl⟩ := List.mem_map.mp hl
  trivial

/-- Text is its own image. -/
theorem flatMap_image_characters (options : Options) :
    (value.map Lexeme.character).flatMap (·.image options text) = value := by
  simp [List.flatMap_map, Lexeme.image]

/-- Text puts no scope into use. -/
theorem filterMap_scope?_characters (naming : Naming) :
    (value.map Lexeme.character).filterMap (·.scope? naming) = [] :=
  List.filterMap_eq_nil_iff.mpr (by simp [Lexeme.scope?])

end Characters

/-- An expansion agrees with lexemes: it has a result if all of them can be read, and that is made of their images, with
their scopes put into use in order; otherwise it fails as one of their attribute lists does. -/
def Expanded.Follows (x : Expanded) (options : Options) (text : Text) (registry : Registry)
    (ls : List Lexeme) : Prop :=
  match x.outcome with
  | .ok out =>
    (∀ l ∈ ls, l.Readable text) ∧ out = ls.flatMap (·.image options text) ∧
      x.registry = (ls.filterMap (·.scope? options.toNaming)).foldl Registry.add registry
  | .error e => ∃ l ∈ ls, l.FailsWith text e

section Follows

variable {options : Options} {text : Text}

/-- Text expands to itself. -/
theorem Node.expand_text_follows (registry : Registry) (value : Text) (extent : Extent) :
    (Node.expand options text registry (.text value extent)).Follows options text registry
      (value.map .character) := by
  simp only [Node.expand, Expanded.Follows]
  refine ⟨characters_readable text value, (flatMap_image_characters text value options).symm, ?_⟩
  rw [filterMap_scope?_characters]
  rfl

/-- Nodes one after another agree with their lexemes one after another. -/
theorem Node.expandAll_cons_follows {registry : Registry} {node : Node} {nodes : List Node}
    {front back : List Lexeme}
    (hf : (Node.expand options text registry node).Follows options text registry front)
    (hb : ∀ registry,
      (Node.expandAll options text registry none nodes).Follows options text registry back) :
    (Node.expandAll options text registry none (node :: nodes)).Follows options text registry
      (front ++ back) := by
  rw [Node.expandAll]
  rcases hx : Node.expand options text registry node with ⟨outcome, after⟩
  rw [hx] at hf
  cases outcome with
  | error e =>
    obtain ⟨l, hl, he⟩ := hf
    exact ⟨l, List.mem_append_left _ hl, he⟩
  | ok out =>
    obtain ⟨hread, hout, hafter⟩ := hf
    dsimp only at hafter ⊢
    have hb := hb after
    rcases hy : Node.expandAll options text after none nodes with ⟨outcome, last⟩
    rw [hy] at hb
    cases outcome with
    | error e =>
      obtain ⟨l, hl, he⟩ := hb
      exact ⟨l, List.mem_append_right _ hl, he⟩
    | ok rest =>
      obtain ⟨hreads, hrest, hlast⟩ := hb
      dsimp only at hlast
      refine ⟨?_, ?_, ?_⟩
      · intro l hl
        rcases List.mem_append.mp hl with hl | hl
        · exact hread l hl
        · exact hreads l hl
      · rw [hout, hrest, List.flatMap_append]
      · rw [hlast, hafter, List.filterMap_append, List.foldl_append]

/-- Segments one after another agree with their lexemes, if each of them does. -/
theorem Node.expandAll_follows {segments : List Segment}
    (h : ∀ s ∈ segments, ∀ registry,
      (Node.expand options text registry (s.node text)).Follows options text registry (s.lexemes text))
    (registry : Registry) :
    (Node.expandAll options text registry none (segments.map (·.node text))).Follows options text
      registry (segments.flatMap (·.lexemes text)) := by
  induction segments generalizing registry with
  | nil => simp [Node.expandAll, Expanded.Follows]
  | cons s segments ih =>
    rw [List.map_cons, List.flatMap_cons]
    exact Node.expandAll_cons_follows (h s (by simp) registry)
      (ih fun s hs => h s (List.mem_cons_of_mem _ hs))

/-- A component without content agrees with its tag. -/
theorem Node.expand_selfClosing_follows {c : Component} (hc : c.closing = none) (registry : Registry) :
    (Node.expand options text registry (.component c [] none)).Follows options text registry
      (c.lexemes text) := by
  simp only [Node.expand, Node.expandAll, Registry.resolve, Component.lexemes, hc]
  cases ha : attributesIn text c.attributes with
  | error e => exact ⟨_, List.mem_singleton_self _, ha⟩
  | ok found =>
    refine ⟨?_, ?_, ?_⟩
    · intro l hl
      obtain rfl := List.mem_singleton.mp hl
      exact ⟨found, ha⟩
    · cases hclose : options.closeSelfClosing <;>
        simp [Lexeme.image_opening ha, Directive.component, hclose]
    · simp [Lexeme.scope?]

/-- A component with content agrees with its two tags around the lexemes of the content. The scope of the component is
in use before its content is expanded. -/
theorem Node.expand_paired_follows {c : Component} {closing : Extent} {nodes : List Node}
    (hc : c.closing = some closing)
    (hi : ∀ registry, (Node.expandAll options text registry none nodes).Follows options text registry
      (lexWindow text ⟨c.opening.stop, closing.start⟩).lexemes) (registry : Registry) :
    (Node.expand options text registry (.component c nodes none)).Follows options text registry
      (c.lexemes text) := by
  simp only [Node.expand, Registry.resolve, Component.lexemes, hc]
  have hi := hi (registry.add (options.scope c.name))
  rcases hx : Node.expandAll options text (registry.add (options.scope c.name)) none nodes with
    ⟨outcome, after⟩
  rw [hx] at hi
  cases outcome with
  | error e =>
    obtain ⟨l, hl, he⟩ := hi
    exact ⟨l, by simp [hl], he⟩
  | ok inner =>
    obtain ⟨hread, hinner, hafter⟩ := hi
    dsimp only at hafter ⊢
    cases ha : attributesIn text c.attributes with
    | error e => exact ⟨_, List.mem_cons_self, ha⟩
    | ok found =>
      refine ⟨?_, ?_, ?_⟩
      · intro l hl
        simp only [List.mem_cons, List.mem_append, List.not_mem_nil, or_false] at hl
        rcases hl with rfl | hl | rfl
        · exact ⟨found, ha⟩
        · exact hread l hl
        · trivial
      · simp [Lexeme.image_opening ha, Lexeme.image_closing, Directive.component, hinner]
      · simp [Lexeme.scope?, hafter]

/-- A window that is cut to its end expands as its lexemes do if its segments do. -/
theorem Outline.expandAll_follows {window : Extent} (h : (scanWindow text window).failure = none)
    (hs : ∀ s ∈ (scanWindow text window).segments, ∀ registry,
      (Node.expand options text registry (s.node text)).Follows options text registry (s.lexemes text))
    (registry : Registry) :
    (Node.expandAll options text registry none (Outline.ofWindow text window).nodes).Follows options text
      registry (lexWindow text window).lexemes := by
  rw [Outline.ofWindow_eq, ← scanWindow_lexemes h]
  exact Node.expandAll_follows hs registry

/-- A segment of a window expands as its lexemes do, also where the cut of the window fails behind it. The induction
is on the length of the window, since the content of a component is a shorter one. -/
theorem Segment.expand_follows {window : Extent} {s : Segment} (hs : s ∈ (scanWindow text window).segments)
    (registry : Registry) :
    (Node.expand options text registry (s.node text)).Follows options text registry (s.lexemes text) := by
  cases s with
  | text value extent => exact Node.expand_text_follows registry value extent
  | component c =>
    cases hc : c.closing with
    | none =>
      rw [Segment.node_selfClosing hc]
      exact Node.expand_selfClosing_follows hc registry
    | some closing =>
      have hw := Component.content?_of_closing hc
      have hlt : closing.start - c.opening.stop < window.stop - window.start := scanFrom_content_lt hs hw
      have hf := scanWindow_content_failure hs hw
      rw [Segment.node_paired hs hc]
      exact Node.expand_paired_follows hc
        (Outline.expandAll_follows hf fun _ hinner => Segment.expand_follows hinner) registry
termination_by window.stop - window.start

/-- Nodes one after another fail as one of them does, or for the failure behind the last one. -/
theorem Node.expandAll_error {registry : Registry} {failure : Option Failure} {nodes : List Node} {e : Failure}
    (h : (Node.expandAll options text registry failure nodes).outcome = .error e) :
    failure = some e ∨ ∃ node ∈ nodes, ∃ before, (Node.expand options text before node).outcome = .error e := by
  induction nodes generalizing registry with
  | nil =>
    cases failure with
    | none => simp [Node.expandAll] at h
    | some e' => exact .inl (by simpa [Node.expandAll] using h)
  | cons node nodes ih =>
    rw [Node.expandAll] at h
    rcases hx : Node.expand options text registry node with ⟨outcome, after⟩
    rw [hx] at h
    cases outcome with
    | error e' => exact .inr ⟨node, List.mem_cons_self, registry, by rw [hx]; exact h⟩
    | ok front =>
      have hrest : (Node.expandAll options text after failure nodes).outcome = .error e := by
        rcases hy : Node.expandAll options text after failure nodes with ⟨outcome, last⟩
        simp only [hy] at h
        cases outcome with
        | error e' => exact h
        | ok back => cases h
      rcases ih hrest with hfailure | ⟨other, hmem, before, he⟩
      · exact .inl hfailure
      · exact .inr ⟨other, List.mem_cons_of_mem _ hmem, before, he⟩

end Follows

/-- The expansion of a text that is cut to its end agrees with the lexemes of the text. -/
theorem expandBody_follows {text : Text} (h : (scanText text).failure = none) (options : Options)
    (registry : Registry) :
    (expandBody options text registry).Follows options text registry (lexText text).lexemes := by
  unfold expandBody
  dsimp only
  rw [Outline.ofText, Outline.failure_ofWindow, show (scanWindow text _).failure = none from h]
  exact Outline.expandAll_follows h (fun _ hs => Segment.expand_follows hs) registry

/-- An expansion fails as the cut of the text does, or as one of its attribute lists. -/
theorem expandBody_error {options : Options} {text : Text} {registry : Registry} {e : Failure}
    (h : (expandBody options text registry).outcome = .error e) :
    (scanText text).failure = some e ∨ ∃ l ∈ (lexText text).lexemes, l.FailsWith text e := by
  unfold expandBody at h
  dsimp only at h
  rw [Outline.ofText, Outline.ofWindow_eq] at h
  rcases Node.expandAll_error h with hfailure | ⟨node, hnode, before, he⟩
  · exact .inl hfailure
  · obtain ⟨s, hs, rfl⟩ := List.mem_map.mp hnode
    have hx : (Node.expand options text before (s.node text)).Follows options text before (s.lexemes text) :=
      Segment.expand_follows hs before
    rw [Expanded.Follows, he] at hx
    obtain ⟨l, hl, hfails⟩ := hx
    exact .inr ⟨l, mem_lexWindow_of_segment hs hl, hfails⟩

/-- The failure that stopped the cut of a text leaves it without an expansion. -/
theorem expandAll_failure (options : Options) (text : Text) (registry : Registry) (e : Failure)
    (nodes : List Node) : ∃ e', (Node.expandAll options text registry (some e) nodes).outcome = .error e' := by
  induction nodes generalizing registry with
  | nil => exact ⟨e, rfl⟩
  | cons node nodes ih =>
    rw [Node.expandAll]
    rcases Node.expand options text registry node with ⟨outcome, after⟩
    cases outcome with
    | error e => exact ⟨e, rfl⟩
    | ok front =>
      obtain ⟨e', he⟩ := ih after
      dsimp only
      rcases hy : Node.expandAll options text after (some e) nodes with ⟨outcome, last⟩
      rw [hy] at he
      obtain rfl : outcome = .error e' := he
      exact ⟨e', rfl⟩

/-- A text that is not cut to its end has no expansion. -/
theorem expandBody_outcome_error {text : Text} {e : Failure} (h : (scanText text).failure = some e)
    (options : Options) (registry : Registry) :
    ∃ e', (expandBody options text registry).outcome = .error e' := by
  unfold expandBody
  dsimp only
  rw [Outline.ofText, Outline.failure_ofWindow, show (scanWindow text _).failure = some e from h]
  exact expandAll_failure options text registry e _

/-- When a text has an expansion, which one, and which scopes are then in use. -/
theorem expandBody_eq_ok_iff {options : Options} {text out : Text} {registry used : Registry} :
    expandBody options text registry = ⟨.ok out, used⟩ ↔
      (scanText text).failure = none ∧ (∀ l ∈ (lexText text).lexemes, l.Readable text) ∧
        out = (lexText text).lexemes.flatMap (·.image options text) ∧
        used = ((lexText text).lexemes.filterMap (·.scope? options.toNaming)).foldl Registry.add registry := by
  constructor
  · intro h
    have hs : (scanText text).failure = none := by
      cases hs : (scanText text).failure with
      | none => rfl
      | some e =>
        obtain ⟨e', he⟩ := expandBody_outcome_error hs options registry
        rw [h] at he
        cases he
    have hx := expandBody_follows hs options registry
    rw [h] at hx
    exact ⟨hs, hx⟩
  · rintro ⟨hs, hread, rfl, rfl⟩
    have hx := expandBody_follows hs options registry
    rcases hbody : expandBody options text registry with ⟨outcome, after⟩
    rw [hbody] at hx
    cases outcome with
    | error e =>
      obtain ⟨l, hl, he⟩ := hx
      exact absurd (hread l hl) he.not_readable
    | ok found =>
      obtain ⟨-, rfl, rfl⟩ := hx
      rfl

/-- A text has an expansion exactly if reading it once meets no tag at fault, its tags are well nested and every
attribute list can be read. The expansion is then made of the images of the lexemes in the order of the text. -/
theorem expandBody_eq_flatMap_image (options : Options) (text : Text) (registry : Registry) (out : Text) :
    (expandBody options text registry).outcome = .ok out ↔
      (lexText text).failure = none ∧ WellNested (lexText text).lexemes ∧
        (∀ l ∈ (lexText text).lexemes, l.Readable text) ∧
        out = (lexText text).lexemes.flatMap (·.image options text) := by
  rw [← and_assoc, ← scanText_failure_eq_none_iff]
  cases hs : (scanText text).failure with
  | some e =>
    obtain ⟨e', he⟩ := expandBody_outcome_error hs options registry
    simp [he]
  | none =>
    have hx := expandBody_follows hs options registry
    unfold Expanded.Follows at hx
    cases ho : (expandBody options text registry).outcome with
    | error e =>
      rw [ho] at hx
      obtain ⟨l, hl, he⟩ := hx
      refine ⟨fun h => by simp at h, ?_⟩
      rintro ⟨-, hread, -⟩
      exact absurd (hread l hl) he.not_readable
    | ok found =>
      rw [ho] at hx
      obtain ⟨hread, hfound, -⟩ := hx
      constructor
      · intro h
        obtain rfl : found = out := by simpa using h
        exact ⟨rfl, hread, hfound⟩
      · rintro ⟨-, -, hout⟩
        rw [hfound, hout]

/-- A component with attributes of both kinds around a self-closing one, an escaped tag and a stray `<`. -/
theorem expandBody_eq_flatMap_image_nested :
    let options : Options := { scopeSuffix := "_s".toList, closeSelfClosing := true }
    let text := "a < <MyBox x y=\"1\"><Item z=\x7b 2 \x7d/>\\<b></MyBox>".toList
    let out := ("a < \x7b% call mybox_s::mybox(x, y=\"1\") %\x7d\x7b% call item_s::item(z=\x7b 2 \x7d) %\x7d" ++
      "\x7b% endcall %\x7d\\<b>\x7b% endcall %\x7d").toList
    (expandBody options text []).outcome = .ok out ∧ WellNested (lexText text).lexemes ∧
      (lexText text).lexemes.flatMap (·.image options text) = out := by
  intro options text out
  have hout : (expandBody options text []).outcome = .ok out := by decide +kernel
  obtain ⟨-, hnested, -, himages⟩ := (expandBody_eq_flatMap_image options text [] out).mp hout
  exact ⟨hout, hnested, himages.symm⟩

end ComponentTags
