import ComponentTags.Segment

/-!
# Outlines: the tree of components of a template

The content of a component is a window of its own, cut into segments like the whole. An outline holds the segments
of a window with the outlines of their contents, and what stopped the cut, at each level. Contents are shorter
than the windows they lie in, which is why the tree is finite.
-/

namespace ComponentTags

/-- A segment with the outline of its content. -/
inductive Node where
  /-- Text that is copied as it is. -/
  | text (value : Text) (extent : Extent)
  /-- A component, the nodes of its content, and what stopped the cut of the content. -/
  | component (c : Component) (content : List Node) (failure : Option Failure)

/-- The nodes of a window, and what stopped the cut of the window. -/
structure Outline where
  /-- The nodes in the order of the text. -/
  nodes : List Node
  /-- The failure behind the last node, if any. -/
  failure : Option Failure

/-- The closing tag that is found lies within the window in which it was looked for. -/
theorem findClosing_bounds {innermost : Opened} {outer : List Opened} {offset left : Nat} {text : Text}
    {e : Extent} (h : findClosing innermost outer offset left text = .ok e) :
    offset ≤ e.start ∧ e.start < offset + left := by
  fun_induction findClosing innermost outer offset left text <;> grind

theorem closingOf?_bounds {m : OpeningMark} {offset left : Nat} {rest : Text} {e : Extent}
    (h : closingOf? m offset left rest = .ok (some e)) :
    offset + m.size ≤ e.start ∧ e.start < offset + (left + 1) := by
  unfold closingOf? at h
  split at h
  · simp at h
  · split at h
    · simp at h
    · next found =>
      obtain rfl : _ = e := by simpa using h
      have := findClosing_bounds found
      omega

theorem component_notMem_pendingText {c : Component} {textStart stop : Nat} {pending : Text} :
    .component c ∉ pendingText textStart stop pending := by
  unfold pendingText
  split <;> simp

/-- The content of a component is shorter than the window in which the component was found. -/
theorem scanFrom_content_lt {textStart : Nat} {pending : Text} {offset left : Nat} {text : Text}
    {c : Component} {w : Extent}
    (hc : .component c ∈ (scanFrom textStart pending offset left text).segments)
    (hw : c.content? = some w) : w.stop - w.start < left := by
  fun_induction scanFrom textStart pending offset left text with
  | case1 => exact absurd hc component_notMem_pendingText
  | case2 => exact absurd hc component_notMem_pendingText
  | case3 => simp at hc
  | case4 _ _ _ _ _ _ _ _ ih => have := ih hc; omega
  | case5 => simp at hc
  | case6 => exact absurd hc component_notMem_pendingText
  | case7 textStart pending offset left first rest _ m _ before closing hclose component size following ih =>
    simp only [List.mem_append, List.mem_cons] at hc
    rcases hc with hc | hc | hc
    · exact absurd hc component_notMem_pendingText
    · obtain rfl : c = component := by simpa using hc
      obtain ⟨e, rfl, rfl⟩ : ∃ e, closing = some e ∧ w = ⟨offset + m.size, e.start⟩ := by
        cases closing with
        | none => simp [component, Component.content?, Component.ofMark] at hw
        | some e =>
          exact ⟨e, rfl, by simpa [component, Component.content?, Component.ofMark, eq_comm] using hw⟩
      have := closingOf?_bounds hclose
      simp only
      omega
    · have := ih hc
      omega
  | case8 _ _ _ _ _ _ _ ih => have := ih hc; omega

/-- The outline of a window of a text. -/
def Outline.ofWindow (text : Text) (window : Extent) : Outline :=
  let scan := scanWindow text window
  ⟨scan.segments.attach.map fun ⟨segment, hs⟩ =>
    match segment with
    | .text value extent => .text value extent
    | .component c =>
      match hw : c.content? with
      | none => .component c [] none
      | some content =>
        have : content.stop - content.start < window.stop - window.start := scanFrom_content_lt hs hw
        let inner := Outline.ofWindow text content
        .component c inner.nodes inner.failure,
    scan.failure⟩
termination_by window.stop - window.start

/-- The outline of a whole text. -/
def Outline.ofText (text : Text) : Outline := .ofWindow text ⟨0, text.length⟩

end ComponentTags
