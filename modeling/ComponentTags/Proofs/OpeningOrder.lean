import ComponentTags.Proofs.Course
import ComponentTags.Proofs.TagFreeOutput

/-!
# Components in the order of their opening tags

The components of an outline at every depth, each before those it holds, stand in the order of their opening tags. An
expansion that comes to its end has entered all of them in this order, and has written one call for each. So the
imports of an expanded text are the scopes of its components in the order of first use, each once, and they are the
scopes of the calls in the text. Two components share a scope exactly if their identifiers are the same.

What an expansion that fails has put into use is not covered here; it is the part of these scopes that its course has
reached.
-/

namespace ComponentTags

mutual

/-- The components of a node at every depth, each before those it holds. -/
def Node.preorder : Node → List Component
  | .text _ _ => []
  | .component c content _ => c :: Node.preorderAll content

/-- The components of nodes one after another. -/
def Node.preorderAll : List Node → List Component
  | [] => []
  | node :: nodes => node.preorder ++ Node.preorderAll nodes

end

/-- The components of an outline at every depth, each before those it holds. -/
def Outline.preorder (o : Outline) : List Component := Node.preorderAll o.nodes

/-- The components of nodes are those of each node, one after another. -/
theorem Node.preorderAll_eq_flatMap (nodes : List Node) : Node.preorderAll nodes = nodes.flatMap (·.preorder) := by
  induction nodes with
  | nil => rfl
  | cons node nodes ih => rw [preorderAll, ih, List.flatMap_cons]

/-- One course after another comes to its end exactly if both do. -/
theorem Course.append_failure_eq_none_iff {a b : Course} :
    (a.append b).failure = none ↔ a.failure = none ∧ b.failure = none := by
  unfold append
  cases ha : a.failure <;> simp

/-- Behind a course that comes to its end, the components of the next one are entered. -/
theorem Course.entered_append {a : Course} (h : a.failure = none) (b : Course) :
    (a.append b).entered = a.entered ++ b.entered := by
  rw [append, h]

mutual

/-- An expansion that comes to its end has entered every component of the node. -/
theorem Node.entered_eq_preorder {text : Text} :
    (node : Node) → (node.course text).failure = none → (node.course text).entered = node.preorder
  | .text _ _, _ => rfl
  | .component c content failure, h => by
    have hcontent := (Course.append_failure_eq_none_iff.mp h).1
    rw [Node.preorder, ← Node.entered_eq_preorderAll content hcontent]
    simp [Node.course, Course.entered_append hcontent]

/-- The same for nodes one after another. -/
theorem Node.entered_eq_preorderAll {text : Text} {failure : Option Failure} :
    (nodes : List Node) → (Node.courseAll text failure nodes).failure = none →
      (Node.courseAll text failure nodes).entered = Node.preorderAll nodes
  | [], _ => rfl
  | node :: nodes, h => by
    obtain ⟨hnode, hnodes⟩ := Course.append_failure_eq_none_iff.mp h
    rw [Node.preorderAll, ← Node.entered_eq_preorder node hnode, ← Node.entered_eq_preorderAll nodes hnodes]
    exact Course.entered_append hnode _

end

/-- The nodes that outlines are made of: a component without a closing tag holds nothing, and the content of one with a
closing tag is cut to its end. -/
inductive Node.Formed : Node → Prop where
  /-- Text. -/
  | text (value : Text) (extent : Extent) : Formed (.text value extent)
  /-- A component without content. -/
  | selfClosing {c : Component} : c.closing = none → Formed (.component c [] none)
  /-- A component with its content. -/
  | paired {c : Component} {closing : Extent} {content : List Node} : c.closing = some closing →
      (∀ node ∈ content, Formed node) → Formed (.component c content none)

/-- All nodes of an outline are of this form. The induction is on the length of the window. -/
theorem Outline.formed (text : Text) (window : Extent) : ∀ node ∈ (ofWindow text window).nodes, node.Formed := by
  rw [ofWindow_eq]
  intro node hnode
  obtain ⟨s, hs, rfl⟩ := List.mem_map.mp hnode
  cases s with
  | text value extent => exact .text value extent
  | component c =>
    cases hc : c.closing with
    | none =>
      rw [Segment.node_selfClosing hc]
      exact .selfClosing hc
    | some closing =>
      have hw := Component.content?_of_closing hc
      have hlt : closing.start - c.opening.stop < window.stop - window.start := scanFrom_content_lt hs hw
      rw [Segment.node_paired hs hc]
      exact .paired hc (Outline.formed text ⟨c.opening.stop, closing.start⟩)
termination_by window.stop - window.start

section Calls

variable {options : Options} {text : Text}

/-- The calls in the pieces of nodes are those of their components, if that holds of each node. -/
theorem Node.calls_piecesAll {nodes : List Node}
    (h : ∀ node ∈ nodes, (node.pieces options text).filterMap Piece.call? =
      node.preorder.map fun c => ((options.scope c.name).name, c.called text)) :
    (Node.piecesAll options text nodes).filterMap Piece.call? =
      (Node.preorderAll nodes).map fun c => ((options.scope c.name).name, c.called text) := by
  induction nodes with
  | nil => rfl
  | cons node nodes ih =>
    rw [List.forall_mem_cons] at h
    rw [Node.piecesAll, Node.preorderAll, List.filterMap_append, List.map_append, h.1, ih h.2]

/-- The calls in the pieces of a node are those of its components, in the order of their opening tags. -/
theorem Node.Formed.calls {node : Node} (h : node.Formed) :
    (node.pieces options text).filterMap Piece.call? =
      node.preorder.map fun c => ((options.scope c.name).name, c.called text) := by
  induction h with
  | text value extent => rfl
  | selfClosing hc =>
    cases ho : options.closeSelfClosing <;> simp [Node.pieces, Node.preorder, Node.preorderAll, Piece.call?, hc, ho]
  | paired hc _ ih =>
    have hcontent := Node.calls_piecesAll ih
    simp [Node.pieces, Node.preorder, Piece.call?, hc, hcontent]

end Calls

/-- The calls in the pieces of a text are those of its components, in the order of their opening tags. -/
theorem Outline.calls_eq (options : Options) (text : Text) :
    ((ofText text).pieces options text).filterMap Piece.call? =
      (ofText text).preorder.map fun c => ((options.scope c.name).name, c.called text) :=
  Node.calls_piecesAll fun node hnode => (formed text _ node hnode).calls

theorem Piece.call?_eq_some {p : Piece} {name : Text} {called : Called} :
    p.call? = some (name, called) ↔ p = .call name called := by
  cases p <;> simp [call?]

/-- The names by which the components of a text are called are those of their scopes. -/
theorem Outline.exists_call_iff {options : Options} {text name : Text} :
    (∃ called, .call name called ∈ (ofText text).pieces options text) ↔
      ∃ c ∈ (ofText text).preorder, (options.scope c.name).name = name := by
  have hcall (called : Called) : .call name called ∈ (ofText text).pieces options text ↔
      (name, called) ∈ ((ofText text).pieces options text).filterMap Piece.call? := by
    simp [List.mem_filterMap, Piece.call?_eq_some]
  simp only [hcall, calls_eq, List.mem_map, Prod.mk.injEq]
  constructor
  · rintro ⟨called, c, hc, hname, -⟩
    exact ⟨c, hc, hname⟩
  · rintro ⟨c, hc, hname⟩
    exact ⟨c.called text, c, hc, hname, rfl⟩

/-- The offset of an opening tag. -/
def Lexeme.openingStart? : Lexeme → Option Nat
  | .opening _ _ extent _ => some extent.start
  | .character _ | .closing _ _ => none

/-- The opening tags among lexemes stand one behind the other, none of them before `offset`. -/
def OpensFrom (offset : Nat) (ls : List Lexeme) : Prop :=
  (ls.filterMap Lexeme.openingStart?).Pairwise (· < ·) ∧ ∀ start ∈ ls.filterMap Lexeme.openingStart?, offset ≤ start

/-- Something else in front of opening tags. -/
theorem OpensFrom.other {offset next : Nat} {l : Lexeme} {ls : List Lexeme} (h : OpensFrom next ls)
    (hl : l.openingStart? = none) (hle : offset ≤ next) : OpensFrom offset (l :: ls) := by
  rw [OpensFrom, List.filterMap_cons_none hl]
  exact ⟨h.1, fun start hstart => Nat.le_trans hle (h.2 start hstart)⟩

/-- One more opening tag in front. -/
theorem OpensFrom.opening {offset next : Nat} {l : Lexeme} {ls : List Lexeme} (h : OpensFrom next ls)
    (hl : l.openingStart? = some offset) (hlt : offset < next) : OpensFrom offset (l :: ls) := by
  have hbehind : ∀ start ∈ ls.filterMap Lexeme.openingStart?, offset < start :=
    fun start hstart => Nat.lt_of_lt_of_le hlt (h.2 start hstart)
  rw [OpensFrom, List.filterMap_cons_some hl, List.pairwise_cons, List.forall_mem_cons]
  exact ⟨⟨hbehind, h.1⟩, Nat.le_refl _, fun start hstart => Nat.le_of_lt (hbehind start hstart)⟩

/-- The opening tags among the lexemes of a window stand one behind the other. -/
theorem lexFrom_opensFrom (offset left : Nat) (text : Text) : OpensFrom offset (lexFrom offset left text).lexemes := by
  fun_induction lexFrom offset left text with
  | case1 => simp [OpensFrom]
  | case2 => simp [OpensFrom]
  | case3 => simp [OpensFrom]
  | case4 offset left c rest hc hm ih => exact ih.other rfl (Nat.le_succ offset)
  | case5 offset left c rest hc m hm ih =>
    have hpos := Mark.size_pos hm
    cases m with
    | closing m => exact ih.other rfl (Nat.le_add_right _ _)
    | opening m => exact ih.opening rfl (by omega)
  | case6 offset left c rest hc ih => exact ih.other rfl (Nat.le_succ offset)

/-- In a window that is cut to its end, the components with their opening tags are met as the tags are read. -/
theorem Outline.preorder_opening {text : Text} (window : Extent) (h : (scanWindow text window).failure = none) :
    (ofWindow text window).preorder.map (·.opening.start) =
      (lexWindow text window).lexemes.filterMap Lexeme.openingStart? := by
  rw [← scanWindow_lexemes h, preorder, ofWindow_eq, Node.preorderAll_eq_flatMap, List.flatMap_map,
    List.map_flatMap, List.filterMap_flatMap]
  refine congrArg List.flatten (List.map_congr_left fun s hs => ?_)
  cases s with
  | text value extent => simp [Segment.node, Segment.lexemes, Node.preorder, List.filterMap_map, Lexeme.openingStart?]
  | component c =>
    simp only [Segment.lexemes, Component.lexemes]
    cases hc : c.closing with
    | none =>
      rw [Segment.node_selfClosing hc]
      simp [Node.preorder, Node.preorderAll, Lexeme.openingStart?]
    | some closing =>
      have hw := Component.content?_of_closing hc
      have hlt : closing.start - c.opening.stop < window.stop - window.start := scanFrom_content_lt hs hw
      have hinner := Outline.preorder_opening _ (scanWindow_content_failure hs hw)
      rw [preorder] at hinner
      rw [Segment.node_paired hs hc]
      simp [Node.preorder, hinner, Lexeme.openingStart?]
termination_by window.stop - window.start

/-- In a text that is cut to its end, the opening tags of the components stand one behind the other. -/
theorem Outline.pairwise_preorder {text : Text} (h : (scanText text).failure = none) :
    (ofText text).preorder.Pairwise fun a b => a.opening.start < b.opening.start := by
  rw [← List.pairwise_map (f := fun c : Component => c.opening.start), ofText, preorder_opening _ h]
  exact (lexFrom_opensFrom _ _ _).1

/-- A component of the cut is a component of the outline. -/
theorem Outline.mem_preorder_of_segment {text : Text} {window : Extent} {c : Component}
    (h : .component c ∈ (scanWindow text window).segments) : c ∈ (ofWindow text window).preorder := by
  rw [preorder, ofWindow_eq, Node.preorderAll_eq_flatMap, List.flatMap_map]
  refine List.mem_flatMap.mpr ⟨_, h, ?_⟩
  rw [Segment.node]
  split <;> simp [Node.preorder]

/-- The opening tag of a component is read in the window, also where the cut of the window fails later on. -/
theorem Outline.opening_mem_lexWindow {text : Text} (window : Extent) {c : Component}
    (h : c ∈ (ofWindow text window).preorder) :
    ∃ selfClosing, .opening c.name c.attributes c.opening selfClosing ∈ (lexWindow text window).lexemes := by
  rw [preorder, ofWindow_eq, Node.preorderAll_eq_flatMap, List.flatMap_map] at h
  obtain ⟨s, hs, hc⟩ := List.mem_flatMap.mp h
  suffices hl : ∃ selfClosing, .opening c.name c.attributes c.opening selfClosing ∈ s.lexemes text by
    obtain ⟨selfClosing, hl⟩ := hl
    exact ⟨selfClosing, mem_lexWindow_of_segment hs hl⟩
  cases s with
  | text value extent => simp [Segment.node, Node.preorder] at hc
  | component own =>
    cases hclosing : own.closing with
    | none =>
      rw [Segment.node_selfClosing hclosing, Node.preorder, Node.preorderAll, List.mem_singleton] at hc
      rw [hc]
      exact own.exists_opening_mem text
    | some closing =>
      have hw := Component.content?_of_closing hclosing
      have hlt : closing.start - own.opening.stop < window.stop - window.start := scanFrom_content_lt hs hw
      rw [Segment.node_paired hs hclosing, Node.preorder, List.mem_cons] at hc
      rcases hc with rfl | hc
      · exact c.exists_opening_mem text
      · obtain ⟨selfClosing, hl⟩ := Outline.opening_mem_lexWindow _ hc
        refine ⟨selfClosing, ?_⟩
        simp only [Segment.lexemes, Component.lexemes, hclosing]
        exact List.mem_cons_of_mem _ (List.mem_append_left _ hl)
termination_by window.stop - window.start

/-- The opening tag of a component begins with a `<`. -/
theorem Outline.getElem?_opening {text : Text} {c : Component} (h : c ∈ (ofText text).preorder) :
    text[c.opening.start]? = some '<' := by
  obtain ⟨selfClosing, hl⟩ := opening_mem_lexWindow _ h
  exact (within_of_mem_lexText hl).1

/-- A text that expands without imports is copied. -/
theorem expandDocument_of_preorder_nil {text : Text} (hs : (scanText text).failure = none)
    (h : (Outline.ofText text).preorder = []) (options : Options) :
    expandDocument options text [] = ⟨.ok text, []⟩ := by
  have hnone : ∀ c, .component c ∉ (scanText text).segments := by
    intro c hc
    have hmem := Outline.mem_preorder_of_segment hc
    rw [← Outline.ofText, h] at hmem
    cases hmem
  exact expandDocument_of_characters (scanText_plain_iff.mp ⟨hs, hnone⟩) options

/-- An outline whose components have no scopes has no components. -/
theorem Outline.preorder_eq_nil {o : Outline} {options : Options}
    (h : (o.preorder.map fun c => options.scope c.name).eraseDups = []) : o.preorder = [] := by
  refine List.eq_nil_iff_forall_not_mem.mpr fun c hc => ?_
  have hscope : options.scope c.name ∈ (o.preorder.map fun c => options.scope c.name).eraseDups :=
    List.mem_eraseDups.mpr (List.mem_map_of_mem hc)
  rw [h] at hscope
  cases hscope

/-- An expansion with a result has gone its whole course. -/
theorem course_failure_of_ok {options : Options} {text out : Text} {registry : Registry}
    (h : (expandDocument options text registry).outcome = .ok out) :
    ((Outline.ofText text).course text).failure = none := by
  rw [expandDocument_outcome] at h
  split at h
  · assumption
  · cases h

/-- What is written, and which scopes are put into use, on a whole course. -/
theorem expandBody_of_course {text : Text} (h : ((Outline.ofText text).course text).failure = none)
    (options : Options) (registry : Registry) :
    expandBody options text registry =
      ⟨.ok (((Outline.ofText text).pieces options text).flatMap Piece.written),
        ((Outline.ofText text).preorder.map fun c => options.scope c.name).foldl Registry.add registry⟩ := by
  have hentered : ((Outline.ofText text).course text).entered = (Outline.ofText text).preorder :=
    Node.entered_eq_preorderAll _ h
  rw [expandBody_eq, Course.expanded, h, hentered]

/-- The imports of scopes, letter by letter. -/
theorem Directive.preamble_eq (scopes : List Scope) :
    Directive.preamble scopes = scopes.flatMap fun scope =>
      "\x7b%- import \"".toList ++ scope.path ++ "\" as ".toList ++ scope.name ++ " -%\x7d\n".toList := by
  have hline : " -%\x7d\n".toList = " -%\x7d".toList ++ ['\n'] := by decide +kernel
  rw [hline]
  delta Directive.preamble Directive.importFile
  simp only [List.append_assoc]

/-- A component that is called leaves the beginning of its call in the expanded text. -/
theorem Piece.callStart_infix {pieces : List Piece} {name : Text} {called : Called} (h : .call name called ∈ pieces) :
    "\x7b% call ".toList ++ name ++ "::".toList <:+: pieces.flatMap Piece.written := by
  have hcall : (Piece.call name called).written <:+: pieces.flatMap Piece.written := by
    obtain ⟨front, back, rfl⟩ := List.append_of_mem h
    rw [List.flatMap_append, List.flatMap_cons]
    exact ⟨front.flatMap Piece.written, back.flatMap Piece.written, by simp⟩
  have hstart : "\x7b% call ".toList ++ name ++ "::".toList <+: (Piece.call name called).written := by
    rw [Piece.written]
    delta spelledCall
    simp only [List.append_assoc, List.prefix_append_right_inj]
    exact List.prefix_append _ _
  exact hstart.isInfix.trans hcall

/-- The imports of an expanded text. The components of the text at every depth, one for each opening tag and in the
order of these, have scopes; the scopes are imported in the order of first use, each once, and under different names.
The names are those by which the calls in the expanded text go, and each stands there in a call. The imports stand in
front of the expanded text, with an empty line between; a text with nothing to import is copied. -/
theorem expandDocument_imports {options : Options} {text out : Text} {used : Registry}
    (h : expandDocument options text [] = ⟨.ok out, used⟩) :
    let components := (Outline.ofText text).preorder
    let pieces := (Outline.ofText text).pieces options text
    let body := pieces.flatMap Piece.written
    (components.Pairwise fun a b => a.opening.start < b.opening.start) ∧
      (∀ c ∈ components, text[c.opening.start]? = some '<') ∧
      components.map (·.opening.start) = (lexText text).lexemes.filterMap Lexeme.openingStart? ∧
      used = (components.map fun c => (⟨macroName c.name ++ options.scopeSuffix,
        macroName c.name ++ '.' :: options.extension⟩ : Scope)).eraseDups ∧
      (used.map (·.name)).Nodup ∧
      (expandBody options text []).outcome = .ok body ∧
      (∀ name, name ∈ used.map (·.name) ↔ ∃ called, .call name called ∈ pieces) ∧
      (∀ scope ∈ used, "\x7b% call ".toList ++ scope.name ++ "::".toList <:+: body) ∧
      out = if used = [] then text else
        (used.flatMap fun scope => "\x7b%- import \"".toList ++ scope.path ++ "\" as ".toList ++ scope.name ++
          " -%\x7d\n".toList) ++ '\n' :: body := by
  intro components pieces body
  have hbody := expandBody_of_course (course_failure_of_ok (congrArg Expanded.outcome h)) options []
  have hscan := (expandBody_eq_ok_iff.mp hbody).1
  have hregistry : used = (expandBody options text []).registry := by
    rw [expandDocument_eq] at h
    exact (congrArg Expanded.registry h).symm
  have hused : used = (components.map fun c => options.scope c.name).eraseDups := by
    rw [hregistry, hbody, Registry.foldl_add_nil]
  have hout : out = withImports used (pieces.flatMap Piece.written) := by
    rw [expandDocument_eq, ← hregistry, hbody] at h
    exact (Except.ok.inj (congrArg Expanded.outcome h)).symm
  have hcalls (name : Text) : name ∈ used.map (·.name) ↔ ∃ called, .call name called ∈ pieces := by
    rw [hused, Outline.exists_call_iff]
    simp [List.mem_eraseDups, components]
  refine ⟨Outline.pairwise_preorder hscan, fun c hc => Outline.getElem?_opening hc, Outline.preorder_opening _ hscan,
    hused, ?_, by rw [hbody], hcalls, fun scope hscope => ?_, ?_⟩
  · rw [hregistry, expandBody_registry]
    exact options.nodup_importOf_name _
  · obtain ⟨called, hcall⟩ := (hcalls scope.name).mp (List.mem_map_of_mem hscope)
    exact Piece.callStart_infix hcall
  · rw [← Directive.preamble_eq]
    cases hcases : used with
    | cons scope scopes => rw [hout, hcases, if_neg (List.cons_ne_nil _ _), withImports]
    | nil =>
      have hnone : components = [] := Outline.preorder_eq_nil (hused.symm.trans hcases)
      rw [expandDocument_of_preorder_nil hscan hnone] at h
      rw [if_pos rfl]
      exact (Except.ok.inj (congrArg Expanded.outcome h)).symm

/-- Two of the three components have the same identifier, one within the other. -/
theorem expandDocument_imports_repeated :
    let text := "<Box><Item/><BOX/></Box>".toList
    let used : Registry := [⟨"box_scope".toList, "box.html".toList⟩, ⟨"item_scope".toList, "item.html".toList⟩]
    let imports := ("\x7b%- import \"box.html\" as box_scope -%\x7d\n" ++
      "\x7b%- import \"item.html\" as item_scope -%\x7d\n").toList
    let body := ("\x7b% call box_scope::box() %\x7d\x7b% call item_scope::item() %\x7d" ++
      "\x7b% call box_scope::box() %\x7d\x7b% endcall %\x7d").toList
    expandDocument {} text [] = ⟨.ok (imports ++ '\n' :: body), used⟩ ∧
      (expandBody {} text []).outcome = .ok (((Outline.ofText text).pieces {} text).flatMap Piece.written) ∧
      (used.map (·.name)).Nodup ∧
      ∀ name, name ∈ used.map (·.name) ↔ ∃ called, .call name called ∈ (Outline.ofText text).pieces {} text := by
  intro text used imports body
  have h : expandDocument {} text [] = ⟨.ok (imports ++ '\n' :: body), used⟩ := by
    have hout : (expandDocument {} text []).outcome = .ok (imports ++ '\n' :: body) := by decide +kernel
    have hused : (expandDocument {} text []).registry = used := by decide +kernel
    rw [← hout, ← hused]
  obtain ⟨-, -, -, -, hnames, hbody, hcalls, -⟩ := expandDocument_imports h
  exact ⟨h, hbody, hnames, hcalls⟩

end ComponentTags
