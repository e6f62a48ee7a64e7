import ComponentTags.Proofs.AttributeReading
import ComponentTags.Proofs.FlatExpansion

/-!
# The content of a component is read as the search for its closing tag has read it

A component is read twice: first by the search for its closing tag, which opens and closes the components within on the
way, and later as a window of its own that ends where the closing tag begins. The search is given a record of the
components that it passes. The second reading never fails and finds the recorded components, with the same tags and
attribute lists, at every depth. So a text that is cut to its end can only fail to expand for the sake of an attribute
list.
-/

namespace ComponentTags

/-- A component as the search for its closing tag knows it. -/
def Component.opened (c : Component) : Opened := ⟨c.name, c.opening.start⟩

/-- A search for a closing tag, with what it has passed. -/
structure Search where
  /-- The closing tag, or what stopped the search. -/
  closing : Except Failure Extent
  /-- The components that were both opened and closed on the way, in the order of their last tags. -/
  passed : List Component

/-- One more component passed in front. -/
def Search.pass (c : Component) (s : Search) : Search := ⟨s.closing, c :: s.passed⟩

/-- The search for the closing tag of the outermost of the open components, as `findClosing` makes it, with a record of
the components that are opened and closed on the way. Open components have no closing tag yet. -/
def searchClosing (innermost : Component) (outer : List Component) (offset : Nat) :
    Nat → Text → Search
  | 0, _ | _ + 1, [] => ⟨.error innermost.opened.neverClosed, []⟩
  | left + 1, c :: rest =>
    if c == '<' then
      match markAt? left rest with
      | .error e => ⟨.error (e.shift offset), []⟩
      | .ok none => searchClosing innermost outer (offset + 1) left rest
      | .ok (some (.closing m)) =>
        if m.name == innermost.name then
          match outer with
          | [] => ⟨.ok ⟨offset, offset + m.size⟩, []⟩
          | o :: outer =>
            (searchClosing o outer (offset + m.size) (left - (m.size - 1)) (rest.drop (m.size - 1))).pass
              { innermost with closing := some ⟨offset, offset + m.size⟩ }
        else ⟨.error (.because (.closesOther m.name innermost.name) offset (offset + m.size)), []⟩
      | .ok (some (.opening m)) =>
        if m.selfClosing then
          (searchClosing innermost outer (offset + m.size) (left - (m.size - 1))
            (rest.drop (m.size - 1))).pass (.ofMark m offset none)
        else
          searchClosing (.ofMark m offset none) (innermost :: outer) (offset + m.size)
            (left - (m.size - 1)) (rest.drop (m.size - 1))
    else searchClosing innermost outer (offset + 1) left rest
termination_by left => left
decreasing_by all_goals omega

/-- The record does not change what is found. -/
theorem searchClosing_closing (innermost : Component) (outer : List Component) (offset left : Nat)
    (text : Text) :
    (searchClosing innermost outer offset left text).closing =
      findClosing innermost.opened (outer.map (·.opened)) offset left text := by
  fun_induction searchClosing innermost outer offset left text with
  | case1 => simp [findClosing]
  | case2 => simp [findClosing]
  | case3 innermost outer offset left c rest hc e hm => simp [findClosing, hc, hm]
  | case4 innermost outer offset left c rest hc hm ih => simp [findClosing, hc, hm, ih]
  | case5 innermost offset left c rest hc m hm hname =>
    simp_all [findClosing, Component.opened]
  | case6 innermost offset left c rest hc m hm hname o outer ih =>
    simp_all [findClosing, Component.opened, Search.pass]
  | case7 innermost outer offset left c rest hc m hm hname =>
    simp_all [findClosing, Component.opened]
  | case8 innermost outer offset left c rest hc m hm hself ih =>
    simp_all [findClosing, Search.pass]
  | case9 innermost outer offset left c rest hc m hm hself ih =>
    simp_all [findClosing, Component.opened, Component.ofMark]
  | case10 innermost outer offset left c rest hc ih => simp_all [findClosing]

/-- What a search that meets the lexemes one after another passes before the outermost component is closed. -/
def passedBy (innermost : Component) (outer : List Component) : List Lexeme → List Component
  | [] => []
  | .character _ :: ls => passedBy innermost outer ls
  | .opening name attributes extent selfClosing :: ls =>
    let c : Component := ⟨name, attributes, extent, none⟩
    if selfClosing then c :: passedBy innermost outer ls else passedBy c (innermost :: outer) ls
  | .closing name extent :: ls =>
    if name = innermost.name then
      match outer with
      | [] => []
      | o :: outer => { innermost with closing := some extent } :: passedBy o outer ls
    else []

/-- The record of the search is a function of the lexemes of its window. -/
theorem searchClosing_passed (innermost : Component) (outer : List Component) (offset left : Nat)
    (text : Text) :
    (searchClosing innermost outer offset left text).passed =
      passedBy innermost outer (lexFrom offset left text).lexemes := by
  fun_induction searchClosing innermost outer offset left text with
  | case1 => simp [lexFrom, passedBy]
  | case2 => simp [lexFrom, passedBy]
  | case3 innermost outer offset left c rest hc e hm => simp [lexFrom, hc, hm, passedBy]
  | case4 innermost outer offset left c rest hc hm ih => simp [lexFrom, hc, hm, passedBy, ih]
  | case5 innermost offset left c rest hc m hm hname =>
    simp_all [lexFrom, Lexeme.ofMark, passedBy]
  | case6 innermost offset left c rest hc m hm hname o outer ih =>
    simp_all [lexFrom, Lexeme.ofMark, passedBy, Search.pass, Mark.size]
  | case7 innermost outer offset left c rest hc m hm hname =>
    simp_all [lexFrom, Lexeme.ofMark, passedBy]
  | case8 innermost outer offset left c rest hc m hm hself ih =>
    simp_all [lexFrom, Lexeme.ofMark, passedBy, Search.pass, Mark.size, Component.ofMark]
  | case9 innermost outer offset left c rest hc m hm hself ih =>
    simp_all [lexFrom, Lexeme.ofMark, passedBy, Mark.size, Component.ofMark]
  | case10 innermost outer offset left c rest hc ih => simp_all [lexFrom, passedBy]

mutual

/-- The components of a node at every depth, in the order of their last tags. -/
def Node.components : Node → List Component
  | .text _ _ => []
  | .component c content _ => Node.componentsAll content ++ [c]

/-- The components of nodes one after another. -/
def Node.componentsAll : List Node → List Component
  | [] => []
  | node :: nodes => node.components ++ Node.componentsAll nodes

end

/-- The components of an outline at every depth, in the order of their last tags. -/
def Outline.components (o : Outline) : List Component := Node.componentsAll o.nodes

theorem Node.mem_componentsAll {nodes : List Node} {c : Component} :
    c ∈ Node.componentsAll nodes ↔ ∃ node ∈ nodes, c ∈ node.components := by
  induction nodes with
  | nil => simp [componentsAll]
  | cons node nodes ih => simp [componentsAll, ih]

/-- In a window that is cut to its end, every opening tag is that of a component of the outline. -/
theorem exists_component_of_opening {text : Text} (window : Extent) (h : (scanWindow text window).failure = none)
    {name : Text} {attributes extent : Extent} {selfClosing : Bool}
    (hl : .opening name attributes extent selfClosing ∈ (lexWindow text window).lexemes) :
    ∃ c ∈ (Outline.ofWindow text window).components, c.attributes = attributes := by
  rw [← scanWindow_lexemes h] at hl
  obtain ⟨s, hs, hmem⟩ := List.mem_flatMap.mp hl
  rw [Outline.components, Outline.ofWindow_eq]
  suffices hnode : ∃ c ∈ (s.node text).components, c.attributes = attributes by
    obtain ⟨c, hc, hattributes⟩ := hnode
    exact ⟨c, Node.mem_componentsAll.mpr ⟨s.node text, List.mem_map_of_mem hs, hc⟩, hattributes⟩
  cases s with
  | text value extent => simp [Segment.lexemes] at hmem
  | component c =>
    simp only [Segment.lexemes, Component.lexemes] at hmem
    have hself {nodes : List Node} {failure : Option Failure} : c ∈ (Node.component c nodes failure).components := by
      simp [Node.components]
    cases hc : c.closing with
    | none =>
      rw [hc] at hmem
      simp only [List.mem_singleton, Lexeme.opening.injEq] at hmem
      rw [Segment.node_selfClosing hc]
      exact ⟨c, hself, hmem.2.1.symm⟩
    | some closing =>
      have hw := Component.content?_of_closing hc
      have hlt : closing.start - c.opening.stop < window.stop - window.start := scanFrom_content_lt hs hw
      rw [hc] at hmem
      simp only [List.mem_cons, List.mem_append, List.not_mem_nil, or_false, Lexeme.opening.injEq, reduceCtorEq]
        at hmem
      rw [Segment.node_paired hs hc]
      rcases hmem with hopening | hinner
      · exact ⟨c, hself, hopening.2.1.symm⟩
      · obtain ⟨other, hother, hattributes⟩ :=
          exists_component_of_opening _ (scanWindow_content_failure hs hw) hinner
        exact ⟨other, List.mem_append_left _ hother, hattributes⟩
termination_by window.stop - window.start

/-- A search passes over what a segment holds: the components of its node, in their order. -/
theorem passedBy_segments {text : Text} {segments : List Segment}
    (h : ∀ s ∈ segments, ∀ (innermost : Component) (outer : List Component) (ls : List Lexeme),
      passedBy innermost outer (s.lexemes text ++ ls) =
        (s.node text).components ++ passedBy innermost outer ls)
    (innermost : Component) (outer : List Component) (ls : List Lexeme) :
    passedBy innermost outer (segments.flatMap (·.lexemes text) ++ ls) =
      Node.componentsAll (segments.map (·.node text)) ++ passedBy innermost outer ls := by
  induction segments with
  | nil => rfl
  | cons s segments ih =>
    have hi := ih fun s hs => h s (List.mem_cons_of_mem _ hs)
    rw [List.flatMap_cons, List.append_assoc, h s (by simp), hi, List.map_cons, Node.componentsAll,
      List.append_assoc]

theorem passedBy_text (value : Text) (innermost : Component) (outer : List Component) (ls : List Lexeme) :
    passedBy innermost outer (value.map .character ++ ls) = passedBy innermost outer ls := by
  induction value with
  | nil => rfl
  | cons c value ih => simpa [passedBy] using ih

/-- A search passes over a window that is cut to its end, and what it records there are the components of the outline of
the window. -/
theorem passedBy_window {text : Text} (window : Extent) (h : (scanWindow text window).failure = none)
    (innermost : Component) (outer : List Component) (ls : List Lexeme) :
    passedBy innermost outer ((lexWindow text window).lexemes ++ ls) =
      (Outline.ofWindow text window).components ++ passedBy innermost outer ls := by
  rw [← scanWindow_lexemes h, Outline.components, Outline.ofWindow_eq]
  refine passedBy_segments ?_ innermost outer ls
  intro s hs innermost outer ls
  cases s with
  | text value extent => exact passedBy_text value innermost outer ls
  | component c =>
    simp only [Segment.lexemes, Component.lexemes]
    cases hc : c.closing with
    | none =>
      have he : (⟨c.name, c.attributes, c.opening, none⟩ : Component) = c := by cases c; simp_all
      rw [Segment.node_selfClosing hc]
      simp [passedBy, he, Node.components, Node.componentsAll]
    | some closing =>
      have hw := Component.content?_of_closing hc
      have he : (⟨c.name, c.attributes, c.opening, some closing⟩ : Component) = c := by cases c; simp_all
      have hlt : closing.start - c.opening.stop < window.stop - window.start := scanFrom_content_lt hs hw
      have hf := scanWindow_content_failure hs hw
      have hi := passedBy_window ⟨c.opening.stop, closing.start⟩ hf
      rw [Segment.node_paired hs hc]
      simp [passedBy, hi, he, Node.components, Outline.components]
termination_by window.stop - window.start

/-- The closing tag that is found lies in the window. -/
theorem findClosing_stop_le {innermost : Opened} {outer : List Opened} {offset left : Nat} {text : Text}
    {e : Extent} (h : findClosing innermost outer offset left text = .ok e) : e.stop ≤ offset + left := by
  fun_induction findClosing innermost outer offset left text with
  | case1 => simp at h
  | case2 => simp at h
  | case3 => simp at h
  | case4 innermost outer offset left c rest hc hm ih => have hi := ih h; omega
  | case5 innermost offset left c rest hc m hm hname =>
    obtain rfl : ⟨offset, offset + m.size⟩ = e := by simpa using h
    have hl : m.size ≤ left + 1 := Mark.size_le hm
    dsimp only
    omega
  | case6 innermost offset left c rest hc m hm hname o outer ih =>
    have hl : m.size ≤ left + 1 := Mark.size_le hm
    have hi := ih h
    omega
  | case7 => simp at h
  | case8 innermost outer offset left c rest hc m hm hself ih =>
    have hl : m.size ≤ left + 1 := Mark.size_le hm
    have hi := ih h
    omega
  | case9 innermost outer offset left c rest hc m hm hself ih =>
    have hl : m.size ≤ left + 1 := Mark.size_le hm
    have hi := ih h
    omega
  | case10 innermost outer offset left c rest hc ih => have hi := ih h; omega

/-- A component that is found lies in the window. -/
theorem closingOf?_stop_le {rest : Text} {m : OpeningMark} {offset left : Nat} {closing : Option Extent}
    (hm : markAt? left rest = .ok (some (.opening m))) (h : closingOf? m offset left rest = .ok closing) :
    (Component.ofMark m offset closing).extent.stop ≤ offset + (left + 1) := by
  have hl : m.size ≤ left + 1 := Mark.size_le hm
  have hp : 0 < m.size := Mark.size_pos hm
  rcases closingOf?_cases h with ⟨-, rfl⟩ | ⟨-, e, rfl, he⟩
  · simp only [Component.extent, Component.ofMark, Option.getD_none]
    omega
  · have hstop := findClosing_stop_le he
    simp only [Component.extent, Component.ofMark, Option.getD_some]
    omega

/-- A component of a cut has the closing tag that the search from its opening tag on finds in the same window. -/
theorem scanFrom_findClosing {whole text pending : Text} {textStart offset left : Nat} {c : Component}
    {closing : Extent} (hw : whole.drop offset = text)
    (hc : .component c ∈ (scanFrom textStart pending offset left text).segments)
    (hclosing : c.closing = some closing) :
    findClosing c.opened [] c.opening.stop (offset + left - c.opening.stop)
      (whole.drop c.opening.stop) = .ok closing := by
  fun_induction scanFrom textStart pending offset left text with
  | case1 => exact absurd hc component_notMem_pendingText
  | case2 => exact absurd hc component_notMem_pendingText
  | case3 => simp at hc
  | case4 textStart pending offset left first rest hf hm ih =>
    rw [← ih (drop_behind hw Nat.one_pos) hc]
    congr 1
    omega
  | case5 => simp at hc
  | case6 => exact absurd hc component_notMem_pendingText
  | case7 textStart pending offset left first rest hf m hm before found hfound component size following ih =>
    obtain rfl : first = '<' := by simpa using hf
    have hp : 0 < m.size := Mark.size_pos hm
    have hstop : component.extent.stop ≤ offset + (left + 1) := closingOf?_stop_le hm hfound
    obtain ⟨hlt, -, -⟩ := closingOf?_ok hm hw hfound (rfl : component = _)
    simp only [List.mem_append, List.mem_cons] at hc
    rcases hc with hc | hc | hc
    · exact absurd hc component_notMem_pendingText
    · obtain rfl : c = component := by simpa using hc
      obtain rfl : found = some closing := hclosing
      simp only [component, Component.ofMark, Component.opened]
      rw [drop_behind hw hp, show offset + (left + 1) - (offset + m.size) = left - (m.size - 1) by omega]
      rcases closingOf?_cases hfound with ⟨-, hnone⟩ | ⟨-, e, he, hfind⟩
      · simp at hnone
      · obtain rfl : closing = e := by simpa using he
        exact hfind
    · rw [← ih (drop_behind hw (by omega)) hc]
      congr 1
      omega
  | case8 textStart pending offset left first rest hf ih =>
    rw [← ih (drop_behind hw Nat.one_pos) hc]
    congr 1
    omega

/-- The search for the closing tag of a component in the window in which it was found. -/
def Component.search (text : Text) (window : Extent) (c : Component) : Search :=
  searchClosing { c with closing := none } [] c.opening.stop (window.stop - c.opening.stop)
    (text.drop c.opening.stop)

/-- The search has passed the components of the content, at every depth and with all their tags. It has read on in the
longer window, and up to the closing tag the content has the same lexemes. -/
theorem Component.search_eq {text : Text} {window : Extent} {c : Component} {closing : Extent}
    (hc : .component c ∈ (scanWindow text window).segments) (hclosing : c.closing = some closing) :
    c.search text window =
      ⟨.ok closing, (Outline.ofWindow text ⟨c.opening.stop, closing.start⟩).components⟩ := by
  have hcontent := content?_of_closing hclosing
  have hlt := scanFrom_content_lt hc hcontent
  have hf : findClosing c.opened [] c.opening.stop (window.stop - c.opening.stop)
      (text.drop c.opening.stop) = .ok closing := by
    rw [← scanFrom_findClosing rfl hc hclosing]
    congr 1
    omega
  have hw := scanWindow_content_failure hc hcontent
  obtain ⟨name, hname, inner, hi, -⟩ := findClosing_ok hf
  obtain rfl : c.name = name := by simpa [opened] using hname
  have hinner : (lexWindow text ⟨c.opening.stop, closing.start⟩).lexemes = inner := by
    have hs := (lexFrom_shrink (by simpa using congrArg Lexing.lexemes hi)).2.2
    exact congrArg Lexing.lexemes hs
  have hpassed : (c.search text window).passed =
      (Outline.ofWindow text ⟨c.opening.stop, closing.start⟩).components := by
    rw [search, searchClosing_passed, hi, Lexing.lexemes_prepend, ← hinner, List.append_assoc,
      passedBy_window _ hw]
    simp [passedBy]
  have hclosed : (c.search text window).closing = .ok closing := by
    rw [search, searchClosing_closing]
    exact hf
  rw [← hpassed, ← hclosed]

/-- The attribute list of an opening tag lies in the window of the tag. -/
theorem lexFrom_attributes_le {offset left : Nat} {text name : Text} {attributes extent : Extent}
    {selfClosing : Bool}
    (h : .opening name attributes extent selfClosing ∈ (lexFrom offset left text).lexemes) :
    attributes.stop ≤ offset + left := by
  fun_induction lexFrom offset left text with
  | case1 => simp at h
  | case2 => simp at h
  | case3 => simp at h
  | case4 offset left c rest hc hm ih =>
    have hi := ih (by simpa using h)
    omega
  | case5 offset left c rest hc m hm ih =>
    have hl := Mark.size_le hm
    simp only [Lexing.lexemes_prepend, List.cons_append, List.nil_append, List.mem_cons] at h
    rcases h with h | h
    · cases m with
      | closing m => simp [Lexeme.ofMark] at h
      | opening m =>
        simp only [Lexeme.ofMark, Lexeme.opening.injEq] at h
        obtain ⟨-, -, -, -, -, -, -, hstop, -⟩ := openingMark?_eq_some (markAt?_opening hm)
        dsimp only [Mark.size] at hl
        rw [h.2.1]
        dsimp only
        omega
    · have hi := ih h
      omega
  | case6 offset left c rest hc ih =>
    have hi := ih (by simpa using h)
    omega

/-- An expansion with imports fails as the expansion of the text does. -/
theorem expandBody_of_expandDocument_error {options : Options} {text : Text} {registry : Registry}
    {e : Failure} (h : (expandDocument options text registry).outcome = .error e) :
    (expandBody options text registry).outcome = .error e := by
  unfold expandDocument at h
  split at h <;> simp_all

/-- Whatever window a component with content was found in, its content is cut to the end as a window of its own, and
into the components that the search for the closing tag has passed there, at every depth. So a text that is cut to the
end fails to expand only where an attribute list is malformed. -/
theorem scanWindow_content_eq_search (text : Text) :
    (∀ (window : Extent) (c : Component) (closing : Extent),
      .component c ∈ (scanWindow text window).segments → c.closing = some closing →
        (scanWindow text ⟨c.opening.stop, closing.start⟩).failure = none ∧
          c.search text window =
            ⟨.ok closing, (Outline.ofWindow text ⟨c.opening.stop, closing.start⟩).components⟩) ∧
    ((scanText text).failure = none → ∀ (options : Options) (registry : Registry) (e : Failure),
      (expandDocument options text registry).outcome = .error e →
        e.IsMalformedAttribute ∧ ∃ l ∈ (lexText text).lexemes, l.FailsWith text e) := by
  constructor
  · intro window c closing hc hclosing
    exact ⟨scanWindow_content_failure hc (Component.content?_of_closing hclosing), Component.search_eq hc hclosing⟩
  · intro hs options registry e he
    have hx := expandBody_follows hs options registry
    rw [Expanded.Follows, expandBody_of_expandDocument_error he] at hx
    obtain ⟨l, hl, hf⟩ := hx
    refine ⟨?_, l, hl, hf⟩
    cases l with
    | character c => exact hf.elim
    | closing name extent => exact hf.elim
    | opening name attributes extent selfClosing =>
      have hle := lexFrom_attributes_le hl
      exact attributesIn_error hf (by simpa using hle)

/-- A component within another, and a text whose only fault is an attribute. -/
theorem scanWindow_content_eq_search_nested :
    (Component.search "<A b><C x=1/></A>".toList ⟨0, 17⟩ ⟨"A".toList, ⟨2, 4⟩, ⟨0, 5⟩, some ⟨13, 17⟩⟩ =
      ⟨.ok ⟨13, 17⟩, (Outline.ofWindow "<A b><C x=1/></A>".toList ⟨5, 13⟩).components⟩) ∧
    (expandDocument {} "<A 1/>".toList []).outcome = .error (.because (.notAName '1') 3 4) ∧
    (Failure.because (.notAName '1') 3 4).IsMalformedAttribute := by
  have hcut : (scanWindow "<A b><C x=1/></A>".toList ⟨0, 17⟩).segments =
      [.component ⟨"A".toList, ⟨2, 4⟩, ⟨0, 5⟩, some ⟨13, 17⟩⟩] := by decide +kernel
  have hscan : (scanText "<A 1/>".toList).failure = none := by decide +kernel
  have hfail : (expandDocument {} "<A 1/>".toList []).outcome = .error (.because (.notAName '1') 3 4) := by
    decide +kernel
  refine ⟨?_, hfail, ?_⟩
  · refine ((scanWindow_content_eq_search _).1 ⟨0, 17⟩ _ _ ?_ rfl).2
    rw [hcut]
    exact List.mem_singleton_self _
  · exact ((scanWindow_content_eq_search _).2 hscan {} [] _ hfail).1

end ComponentTags
