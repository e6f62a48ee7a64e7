import ComponentTags.Proofs.ContentWindow
import Mathlib.Data.List.Chain

/-!
# Segments tile their window

The segments of a window that is cut to its end cover the window from its start to its end, each where the one before it
stops. Texts hold the characters of their extents, and two of them never touch. The tags of a component stand in the
window in the order in which they are written. A cut that fails has covered the front of the window in the same way.

The window has to lie within its text. What the cut of a window with places past the end of the text yields is not
covered.
-/

namespace ComponentTags

/-- The characters of a stretch of a text. -/
def Extent.slice (text : Text) (e : Extent) : Text := (text.drop e.start).take (e.stop - e.start)

/-- A text goes on with a piece at some place, so the piece is the slice there. -/
theorem Extent.slice_of_drop {text piece rest : Text} {start : Nat} (h : text.drop start = piece ++ rest) :
    slice text ⟨start, start + piece.length⟩ = piece := by
  simp [slice, h]

/-- The tags of a component stand in a stretch of the text in their order: the name behind the `<`, the attribute list
behind the name and before the end of the opening tag, and the closing tag, if any, behind that. -/
structure Component.PlacedIn (text : Text) (stretch : Extent) (c : Component) : Prop where
  start_le : stretch.start ≤ c.opening.start
  name_eq : Extent.slice text ⟨c.opening.start + 1, c.attributes.start⟩ = c.name
  opening_lt : c.opening.start < c.attributes.start
  attributes_le : c.attributes.start ≤ c.attributes.stop
  attributes_lt : c.attributes.stop < c.opening.stop
  opening_stop_le : c.opening.stop ≤ stretch.stop
  closing : ∀ e, c.closing = some e → c.opening.stop ≤ e.start ∧ e.start < e.stop ∧ e.stop ≤ stretch.stop

/-- A segment stands in a stretch of the text. A text is not empty, and it is made of the characters of its extent. -/
def Segment.PlacedIn (text : Text) (stretch : Extent) : Segment → Prop
  | .text value extent =>
    stretch.start ≤ extent.start ∧ extent.stop ≤ stretch.stop ∧ value ≠ [] ∧ value = extent.slice text
  | .component c => c.PlacedIn text stretch

/-- A segment that is placed in a stretch is placed in a longer one. -/
theorem Segment.PlacedIn.mono {text : Text} {inner outer : Extent} {s : Segment} (h : s.PlacedIn text inner)
    (hstart : outer.start ≤ inner.start) (hstop : inner.stop ≤ outer.stop) : s.PlacedIn text outer := by
  cases s with
  | text value extent =>
    obtain ⟨hlo, hhi, hne, hvalue⟩ := h
    exact ⟨hstart.trans hlo, hhi.trans hstop, hne, hvalue⟩
  | component c =>
    have hclosing : ∀ e, c.closing = some e → c.opening.stop ≤ e.start ∧ e.start < e.stop ∧ e.stop ≤ outer.stop := by
      intro e he
      obtain ⟨hlo, hlt, hhi⟩ := h.closing e he
      exact ⟨hlo, hlt, hhi.trans hstop⟩
    exact { h with
      start_le := hstart.trans h.start_le
      opening_stop_le := h.opening_stop_le.trans hstop
      closing := hclosing }

/-- The segment is a text. -/
def Segment.isText : Segment → Bool
  | .text _ _ => true
  | .component _ => false

/-- The segments tile a stretch of a text: there are none exactly if the stretch is empty, the first one starts where
the stretch does, each other one where the one before it stops, and the last one stops where the stretch does. -/
structure Tiles (text : Text) (stretch : Extent) (segments : List Segment) : Prop where
  nil_iff : segments = [] ↔ stretch.start = stretch.stop
  first : ∀ s ∈ segments.head?, s.extent.start = stretch.start
  last : ∀ s ∈ segments.getLast?, s.extent.stop = stretch.stop
  contiguous : segments.IsChain fun a b => a.extent.stop = b.extent.start
  texts_apart : segments.IsChain fun a b => ¬(a.isText = true ∧ b.isText = true)
  placed : ∀ s ∈ segments, s.PlacedIn text stretch

/-- No segments tile an empty stretch. -/
theorem Tiles.nil (text : Text) (place : Nat) : Tiles text ⟨place, place⟩ [] where
  nil_iff := by simp
  first := by simp
  last := by simp
  contiguous := .nil
  texts_apart := .nil
  placed := by simp

/-- One segment more in front. -/
theorem Tiles.cons {text : Text} {stop : Nat} {s : Segment} {segments : List Segment}
    (h : Tiles text ⟨s.extent.stop, stop⟩ segments) (hs : s.PlacedIn text s.extent)
    (hlt : s.extent.start < s.extent.stop) (hle : s.extent.stop ≤ stop)
    (happart : s.isText = true → ∀ next ∈ segments.head?, next.isText = false) :
    Tiles text ⟨s.extent.start, stop⟩ (s :: segments) where
  nil_iff := by
    have hne : s.extent.start ≠ stop := by omega
    simp [hne]
  first := by simp
  last := by
    intro t ht
    rw [List.getLast?_cons] at ht
    cases hlast : segments.getLast? with
    | none =>
      have hnil : segments = [] := List.getLast?_eq_none_iff.mp hlast
      have hstop : s.extent.stop = stop := h.nil_iff.mp hnil
      have hs : s = t := by simpa [hlast] using ht
      rw [← hs, hstop]
    | some other =>
      have hother : other = t := by simpa [hlast] using ht
      exact h.last t (by rw [hlast, hother]; rfl)
  contiguous := List.isChain_cons.mpr ⟨fun next hnext => (h.first next hnext).symm, h.contiguous⟩
  texts_apart := by
    refine List.isChain_cons.mpr ⟨fun next hnext hboth => ?_, h.texts_apart⟩
    have hother := happart hboth.1 next hnext
    rw [hboth.2] at hother
    cases hother
  placed := by
    refine List.forall_mem_cons.mpr ⟨hs.mono (Nat.le_refl _) hle, fun t ht => ?_⟩
    have hplaced := h.placed t ht
    exact hplaced.mono (Nat.le_of_lt hlt) (Nat.le_refl _)

/-- The text that has been read is put in front of segments that begin with a component, or before nothing. -/
theorem Tiles.pendingText {whole pending text : Text} {textStart offset stop : Nat} {segments : List Segment}
    (h : Tiles whole ⟨offset, stop⟩ segments) (hw : whole.drop textStart = pending.reverse ++ text)
    (ho : offset = textStart + pending.length) (hle : offset ≤ stop)
    (hnext : ∀ next ∈ segments.head?, next.isText = false) :
    Tiles whole ⟨textStart, stop⟩ (pendingText textStart offset pending ++ segments) := by
  unfold ComponentTags.pendingText
  split
  · next hlt =>
    have hslice : pending.reverse = Extent.slice whole ⟨textStart, offset⟩ := by
      have hpiece := Extent.slice_of_drop hw
      rw [List.length_reverse, ← ho] at hpiece
      exact hpiece.symm
    have hne : pending.reverse ≠ [] := by
      intro hnil
      have hlength := congrArg List.length hnil
      rw [List.length_reverse, List.length_nil] at hlength
      omega
    have hplaced : (Segment.text pending.reverse ⟨textStart, offset⟩).PlacedIn whole ⟨textStart, offset⟩ :=
      ⟨Nat.le_refl _, Nat.le_refl _, hne, hslice⟩
    exact Tiles.cons (s := .text pending.reverse ⟨textStart, offset⟩) h hplaced hlt hle fun _ => hnext
  · next hnot =>
    have heq : textStart = offset := by omega
    rw [heq]
    exact h

/-- A component that is found has its tags in their order within its own extent. -/
theorem Component.ofMark_placedIn {whole rest : Text} {m : OpeningMark} {offset left : Nat} {closing : Option Extent}
    (hm : markAt? left rest = .ok (some (.opening m))) (ht : whole.drop offset = '<' :: rest)
    (h : closingOf? m offset left rest = .ok closing) {c : Component} (hc : c = ofMark m offset closing) :
    c.PlacedIn whole c.extent := by
  obtain ⟨body, behind, hrest, -, hfront, -, hlo, hhi, -⟩ := openingMark?_eq_some (markAt?_opening hm)
  have hname : Extent.slice whole ⟨offset + 1, offset + 1 + m.name.length⟩ = m.name := by
    obtain ⟨tail, htail⟩ := hfront
    have hdrop : whole.drop (offset + 1) = m.name ++ (tail ++ behind) := by
      rw [drop_behind ht Nat.one_pos, hrest, ← htail]
      simp
    exact Extent.slice_of_drop hdrop
  have hclosing : ∀ e, closing = some e → offset + m.size ≤ e.start ∧ e.start < e.stop := by
    intro e he
    rcases closingOf?_cases h with ⟨-, hnone⟩ | ⟨-, found, hfound, hfind⟩
    · rw [hnone] at he
      cases he
    · have hsame : found = e := Option.some.inj (hfound.symm.trans he)
      obtain ⟨-, -, -, -, -, hle, hlt⟩ := findClosing_ok hfind
      rw [hsame] at hle hlt
      exact ⟨hle, hlt⟩
  have hstop : offset + m.size ≤ c.extent.stop := by
    subst hc
    cases hcl : closing with
    | none => exact Nat.le_refl _
    | some e =>
      have hbounds := hclosing e hcl
      simp only [extent, ofMark, Option.getD_some]
      omega
  subst hc
  refine ⟨Nat.le_refl _, ?_, ?_, ?_, ?_, hstop, ?_⟩
  · have hstart : offset + m.attributesStart = offset + 1 + m.name.length := by
      rw [OpeningMark.attributesStart]
      omega
    simp only [ofMark, hstart]
    exact hname
  · simp only [ofMark, OpeningMark.attributesStart]
    omega
  · simp only [ofMark, OpeningMark.attributesStart]
    omega
  · simp only [ofMark]
    omega
  · intro e he
    have hcl : closing = some e := he
    obtain ⟨hle, hlt⟩ := hclosing e hcl
    refine ⟨hle, hlt, ?_⟩
    simp [extent, ofMark, hcl]

/-- The text that has been read tiles its own stretch. -/
theorem tiles_pendingText {whole pending text : Text} {textStart offset : Nat}
    (hw : whole.drop textStart = pending.reverse ++ text) (ho : offset = textStart + pending.length) :
    Tiles whole ⟨textStart, offset⟩ (pendingText textStart offset pending) := by
  have hnothing := (Tiles.nil whole offset).pendingText hw ho (Nat.le_refl _) (by simp)
  rwa [List.append_nil] at hnothing

/-- What a cut has found tiles the front of a stretch, and all of it if nothing stopped the cut. -/
def Scan.TilesFront (text : Text) (stretch : Extent) (scan : Scan) : Prop :=
  ∃ stop, stretch.start ≤ stop ∧ stop ≤ stretch.stop ∧ Tiles text ⟨stretch.start, stop⟩ scan.segments ∧
    (scan.failure = none → stop = stretch.stop)

/-- A cut that is stopped before it has found anything. -/
theorem Scan.tilesFront_stopped (text : Text) {stretch : Extent} (h : stretch.start ≤ stretch.stop) (e : Failure) :
    Scan.TilesFront text stretch ⟨[], some e⟩ :=
  ⟨stretch.start, Nat.le_refl _, h, .nil text stretch.start, fun hnone => by cases hnone⟩

/-- A component in front of what a cut finds behind it, and before that the text that has been read. -/
theorem Scan.TilesFront.component {whole pending text : Text} {textStart stop : Nat} {c : Component} {following : Scan}
    (h : following.TilesFront whole ⟨c.extent.stop, stop⟩) (hc : c.PlacedIn whole c.extent)
    (hw : whole.drop textStart = pending.reverse ++ text) (ho : c.opening.start = textStart + pending.length) :
    Scan.TilesFront whole ⟨textStart, stop⟩
      ⟨pendingText textStart c.opening.start pending ++ .component c :: following.segments, following.failure⟩ := by
  obtain ⟨reached, hlo, hhi, htiles, hend⟩ := h
  dsimp only at hlo hhi htiles hend
  have hlt : c.opening.start < c.extent.stop :=
    calc
      c.opening.start < c.attributes.start := hc.opening_lt
      _ ≤ c.attributes.stop := hc.attributes_le
      _ < c.opening.stop := hc.attributes_lt
      _ ≤ c.extent.stop := hc.opening_stop_le
  have hcons : Tiles whole ⟨c.opening.start, reached⟩ (.component c :: following.segments) :=
    Tiles.cons (s := .component c) htiles hc hlt hlo fun htext => by cases htext
  have hle : c.opening.start ≤ reached := by omega
  have hall := hcons.pendingText hw ho hle (by simp [Segment.isText])
  exact ⟨reached, by dsimp only; omega, hhi, hall, hend⟩

/-- The cut from any place on. What the text has from `textStart` on begins with the text that has been read. Behind a
component the cut goes on with no text read so far. -/
theorem scanFrom_tilesFront {whole pending text : Text} {textStart offset left : Nat}
    (hw : whole.drop textStart = pending.reverse ++ text) (ho : offset = textStart + pending.length)
    (hl : left ≤ text.length) :
    (scanFrom textStart pending offset left text).TilesFront whole ⟨textStart, offset + left⟩ := by
  fun_induction scanFrom textStart pending offset left text with
  | case1 textStart pending offset text =>
    have hle : textStart ≤ offset := by omega
    exact ⟨offset, hle, Nat.le_refl _, tiles_pendingText hw ho, fun _ => rfl⟩
  | case2 => simp at hl
  | case3 textStart pending offset left c rest hc e hm =>
    exact Scan.tilesFront_stopped whole (by dsimp only; omega) _
  | case4 textStart pending offset left c rest hc hm ih =>
    have hi := ih (by simpa using hw) (by simp; omega) (by simpa using hl)
    rwa [show offset + 1 + left = offset + (left + 1) by omega] at hi
  | case5 textStart pending offset left c rest hc m hm =>
    exact Scan.tilesFront_stopped whole (by dsimp only; omega) _
  | case6 textStart pending offset left c rest hc m hm before e he =>
    have hle : textStart ≤ offset := by omega
    exact ⟨offset, hle, Nat.le_add_right _ _, tiles_pendingText hw ho, fun hnone => by cases hnone⟩
  | case7 textStart pending offset left c rest hc m hm before closing hclosing component size following ih =>
    have hmark : c = '<' := by simpa using hc
    rw [hmark] at hw hl
    have hdrop : whole.drop offset = '<' :: rest := by
      rw [ho, ← List.drop_drop, hw, ← List.length_reverse, List.drop_left]
    have hplaced : component.PlacedIn whole component.extent := Component.ofMark_placedIn hm hdrop hclosing rfl
    have hstop : component.extent.stop ≤ offset + (left + 1) := closingOf?_stop_le hm hclosing
    have hlt : offset < component.extent.stop := (closingOf?_ok hm hdrop hclosing rfl).1
    have hsize : offset + size = component.extent.stop := by omega
    have hbehind : whole.drop (offset + size) = ([] : Text).reverse ++ rest.drop (size - 1) :=
      drop_behind hdrop (by omega)
    have hleft : left - (size - 1) ≤ (rest.drop (size - 1)).length := by
      simp only [List.length_cons, List.length_drop] at hl ⊢
      omega
    have hi : following.TilesFront whole ⟨offset + size, offset + size + (left - (size - 1))⟩ := ih hbehind rfl hleft
    rw [show offset + size + (left - (size - 1)) = offset + (left + 1) by omega, hsize] at hi
    exact hi.component hplaced hw ho
  | case8 textStart pending offset left c rest hc ih =>
    have hi := ih (by simpa using hw) (by simp; omega) (by simpa using hl)
    rwa [show offset + 1 + left = offset + (left + 1) by omega] at hi

/-- The segments of a window that lies within its text. If the cut comes to its end they tile the window, and otherwise
they tile its front. -/
theorem scanWindow_tiles (text : Text) (window : Extent) (hle : window.start ≤ window.stop)
    (hlength : window.stop ≤ text.length) :
    ((scanWindow text window).failure = none → Tiles text window (scanWindow text window).segments) ∧
    ∀ e, (scanWindow text window).failure = some e →
      ∃ stop, window.start ≤ stop ∧ stop ≤ window.stop ∧
        Tiles text ⟨window.start, stop⟩ (scanWindow text window).segments := by
  have hleft : window.stop - window.start ≤ (text.drop window.start).length := by
    rw [List.length_drop]
    omega
  have hfront : (scanWindow text window).TilesFront text ⟨window.start, window.start + (window.stop - window.start)⟩ :=
    scanFrom_tilesFront rfl rfl hleft
  rw [show window.start + (window.stop - window.start) = window.stop by omega] at hfront
  obtain ⟨stop, hlo, hhi, htiles, hend⟩ := hfront
  refine ⟨fun hnone => ?_, fun e _ => ⟨stop, hlo, hhi, htiles⟩⟩
  rw [hend hnone] at htiles
  exact htiles

/-- A window behind the first character that holds a component within another one, and a text whose second tag closes
nothing. -/
theorem scanWindow_tiles_nested :
    let text := "a<Box b ><I/></Box>c".toList
    let box : Component := ⟨"Box".toList, ⟨5, 7⟩, ⟨1, 9⟩, some ⟨13, 19⟩⟩
    let refused := "c<A/></B>".toList
    let front : List Segment := [.text "c".toList ⟨0, 1⟩, .component ⟨"A".toList, ⟨3, 3⟩, ⟨1, 5⟩, none⟩]
    Tiles text ⟨1, 20⟩ [.component box, .text "c".toList ⟨19, 20⟩] ∧
      (scanWindow refused ⟨0, 9⟩).failure = some (.because (.closesNothing "B".toList) 5 9) ∧
      ∃ stop, 0 ≤ stop ∧ stop ≤ 9 ∧ Tiles refused ⟨0, stop⟩ front := by
  intro text box refused front
  have hcut : (scanWindow text ⟨1, 20⟩).segments = [.component box, .text "c".toList ⟨19, 20⟩] := by decide +kernel
  have hnone : (scanWindow text ⟨1, 20⟩).failure = none := by decide +kernel
  have hfront : (scanWindow refused ⟨0, 9⟩).segments = front := by decide +kernel
  have hsome : (scanWindow refused ⟨0, 9⟩).failure = some (.because (.closesNothing "B".toList) 5 9) := by
    decide +kernel
  have htiles := (scanWindow_tiles text ⟨1, 20⟩ (by decide) (by decide)).1 hnone
  have hstopped := (scanWindow_tiles refused ⟨0, 9⟩ (by decide) (by decide)).2 _ hsome
  rw [hcut] at htiles
  rw [hfront] at hstopped
  exact ⟨htiles, hsome, hstopped⟩

end ComponentTags
