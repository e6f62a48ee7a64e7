import ComponentTags.Proofs.FaultPlaces

/-!
# Lines and columns by counting

The line of a place is found by halving a list of line starts. Here it is shown to be the number of line feeds before
the place, and the column the number of characters behind the last of them. So a place further on in the text has a
greater line, or the same line and a greater column. A line starts at one place only, and the column leads from there to
the place it was made for.

From line and character, both counted from zero, an editor walks back to the place: first to the line, then along it.
The walk ends at the offset that the line and the character belong to.

Places before the text are not covered.
-/

namespace ComponentTags

/-- The characters behind the last line feed of a text. -/
def lastLine (text : Text) : Text := (text.reverse.takeWhile (· != '\n')).reverse

/-- A text without a line feed is its own last line. -/
theorem lastLine_of_notMem {text : Text} (h : '\n' ∉ text) : lastLine text = text := by
  have hall : ∀ c ∈ text.reverse, (c != '\n') = true := by
    intro c hc
    rw [List.mem_reverse] at hc
    simp only [bne_iff_ne]
    rintro rfl
    exact h hc
  rw [lastLine, List.takeWhile_eq_self_iff.mpr hall, List.reverse_reverse]

/-- What stands before a line feed is not on the last line. -/
theorem lastLine_cons_of_mem {text : Text} (h : '\n' ∈ text) (c : Char) : lastLine (c :: text) = lastLine text := by
  have hstop : ¬(text.reverse.takeWhile (· != '\n')).length = text.reverse.length := by
    intro hlength
    have hall := (List.takeWhile_prefix (· != '\n')).eq_of_length hlength
    have hfeed := List.takeWhile_eq_self_iff.mp hall '\n' (by simpa using h)
    simp at hfeed
  rw [lastLine, List.reverse_cons, List.takeWhile_append, if_neg hstop, lastLine]

theorem lastLine_cons_feed (text : Text) : lastLine ('\n' :: text) = lastLine text := by
  by_cases h : '\n' ∈ text
  · exact lastLine_cons_of_mem h '\n'
  · have hall : text.reverse.takeWhile (· != '\n') = text.reverse := by
      have hself := lastLine_of_notMem h
      rw [lastLine, List.reverse_eq_iff] at hself
      exact hself
    rw [lastLine, List.reverse_cons, List.takeWhile_append, hall, if_pos rfl]
    simp [lastLine, hall]

/-- The starts of lines are shifted with the text. -/
theorem startsAfterFeeds_add (n offset : Nat) (text : Text) :
    startsAfterFeeds (offset + n) text = (startsAfterFeeds offset text).map (· + n) := by
  induction text generalizing offset with
  | nil => rfl
  | cons c text ih =>
    have hnext := ih (offset + 1)
    rw [Nat.add_right_comm] at hnext
    rw [startsAfterFeeds, startsAfterFeeds]
    split
    · rw [hnext, List.map_cons, Nat.add_right_comm]
    · exact hnext

/-- With one character more in front, every line starts one place later, and a line feed in front starts one more. -/
theorem startsAfterFeeds_cons (c : Char) (text : Text) :
    startsAfterFeeds 0 (c :: text) =
      (if c = '\n' then 0 :: startsAfterFeeds 0 text else startsAfterFeeds 0 text).map (· + 1) := by
  have hshift := startsAfterFeeds_add 1 0 text
  rw [startsAfterFeeds, hshift]
  by_cases hc : c = '\n' <;> simp [hc]

/-- A place stands on a line, counted from zero: the line starts at or before it, and the next one behind it. -/
structure OnLine (text : Text) (line start offset : Nat) : Prop where
  start_eq : (0 :: startsAfterFeeds 0 text)[line]? = some start
  start_le : start ≤ offset
  lt_next : ∀ next ∈ (startsAfterFeeds 0 text)[line]?, offset < next

/-- The text begins on its first line. -/
theorem OnLine.eq_zero {text : Text} {line start : Nat} (h : OnLine text line start 0) : line = 0 ∧ start = 0 := by
  have hstart : start = 0 := Nat.le_zero.mp h.start_le
  have hline := h.start_eq
  rw [hstart] at hline
  cases text with
  | nil =>
    cases line with
    | zero => exact ⟨rfl, hstart⟩
    | succ line => simp [startsAfterFeeds] at hline
  | cons c text =>
    cases line with
    | zero => exact ⟨rfl, hstart⟩
    | succ line =>
      rw [startsAfterFeeds_cons, List.getElem?_cons_succ, List.getElem?_map, Option.map_eq_some_iff] at hline
      obtain ⟨before, -, hbefore⟩ := hline
      exact absurd hbefore (Nat.succ_ne_zero before)

/-- A line feed in front makes one line more. -/
theorem OnLine.of_feed {text : Text} {line start offset : Nat} (h : OnLine ('\n' :: text) line start (offset + 1)) :
    ∃ line' start', line = line' + 1 ∧ start = start' + 1 ∧ OnLine text line' start' offset := by
  obtain ⟨hstart, hle, hnext⟩ := h
  rw [startsAfterFeeds_cons, if_pos rfl] at hstart hnext
  cases line with
  | zero =>
    have hbehind := hnext 1 (by simp)
    omega
  | succ line =>
    rw [List.getElem?_cons_succ, List.getElem?_map, Option.map_eq_some_iff] at hstart
    obtain ⟨before, hbefore, rfl⟩ := hstart
    refine ⟨line, before, rfl, rfl, hbefore, by omega, fun next hmem => ?_⟩
    have hshifted := hnext (next + 1) (by simpa using hmem)
    omega

/-- Another character in front makes the first line longer and the others start later. -/
theorem OnLine.of_character {c : Char} {text : Text} {line start offset : Nat} (hc : c ≠ '\n')
    (h : OnLine (c :: text) line start (offset + 1)) :
    (line = 0 ∧ start = 0 ∧ OnLine text 0 0 offset) ∨
      ∃ start', line ≠ 0 ∧ start = start' + 1 ∧ OnLine text line start' offset := by
  obtain ⟨hstart, hle, hnext⟩ := h
  rw [startsAfterFeeds_cons, if_neg hc] at hstart hnext
  have hlater : ∀ next ∈ (startsAfterFeeds 0 text)[line]?, offset < next := by
    intro next hmem
    have hshifted := hnext (next + 1) (by simpa using hmem)
    omega
  cases line with
  | zero =>
    have hzero : start = 0 := by simpa using hstart.symm
    exact .inl ⟨rfl, hzero, rfl, Nat.zero_le _, hlater⟩
  | succ line =>
    rw [List.getElem?_cons_succ, List.getElem?_map, Option.map_eq_some_iff] at hstart
    obtain ⟨before, hbefore, rfl⟩ := hstart
    exact .inr ⟨before, Nat.succ_ne_zero line, rfl, hbefore, by omega, hlater⟩

/-- A line has as many line feeds before it as its number says, and a place on it is behind its start by the characters
since the last of them. Past the end of the text the line goes on. -/
theorem OnLine.eq_count {text : Text} {line start offset : Nat} (h : OnLine text line start offset) :
    line = (text.take offset).count '\n' ∧
      offset = start + ((lastLine (text.take offset)).length + (offset - text.length)) := by
  induction text generalizing line start offset with
  | nil =>
    have hline := h.start_eq
    cases line with
    | succ line => simp [startsAfterFeeds] at hline
    | zero =>
      have hzero : start = 0 := by simpa using hline.symm
      simp [hzero, lastLine]
  | cons c text ih =>
    cases offset with
    | zero =>
      obtain ⟨hline, hstart⟩ := h.eq_zero
      simp [hline, hstart, lastLine]
    | succ offset =>
      rw [List.take_succ_cons, List.length_cons]
      by_cases hc : c = '\n'
      · rw [hc] at h ⊢
        obtain ⟨line, start, rfl, rfl, hrest⟩ := h.of_feed
        obtain ⟨hcount, hplace⟩ := ih hrest
        rw [lastLine_cons_feed, List.count_cons_self]
        exact ⟨by omega, by omega⟩
      · rw [List.count_cons_of_ne hc]
        rcases h.of_character hc with ⟨rfl, rfl, hrest⟩ | ⟨start, hline, rfl, hrest⟩
        · obtain ⟨hcount, hplace⟩ := ih hrest
          have hnone : '\n' ∉ text.take offset := List.count_eq_zero.mp hcount.symm
          have hall : '\n' ∉ c :: text.take offset := by simp [hnone, Ne.symm hc]
          rw [lastLine_of_notMem hnone] at hplace
          rw [lastLine_of_notMem hall, List.length_cons]
          exact ⟨hcount, by omega⟩
        · obtain ⟨hcount, hplace⟩ := ih hrest
          have hsome : '\n' ∈ text.take offset := List.count_pos_iff.mp (by omega)
          rw [lastLine_cons_of_mem hsome]
          exact ⟨hcount, by omega⟩

/-- The search by halves finds the line on which a place stands. -/
theorem LineIndex.exists_onLine (text : Text) (offset : Nat) :
    ∃ line, (ofText text).linesUpTo offset 0 (ofText text).starts.size = line + 1 ∧
      OnLine text line ((ofText text).lineStart (line + 1)) offset := by
  have hstarts (i : Nat) : (ofText text).starts[i]? = (0 :: startsAfterFeeds 0 text)[i]? := by simp [ofText]
  obtain ⟨-, hsize, hle, hbehind⟩ := (ofText text).linesUpTo_between offset (Nat.zero_le (ofText text).starts.size)
  have hpos : 1 ≤ ((ofText text).position offset).line := (locates_position text offset).2.1
  dsimp only [position] at hpos
  obtain ⟨line, hline⟩ : ∃ line, (ofText text).linesUpTo offset 0 (ofText text).starts.size = line + 1 :=
    Nat.exists_eq_succ_of_ne_zero (by omega)
  rw [hline] at hsize hle hbehind
  have hlt : line < (ofText text).starts.size := by omega
  have hstart : (ofText text).starts[line]? = some ((ofText text).lineStart (line + 1)) := by
    simp [lineStart, Array.getD_eq_getD_getElem?, hlt]
  refine ⟨line, hline, ?_, ?_, ?_⟩
  · rw [← hstarts, hstart]
  · have hbefore := hle (Nat.succ_pos line)
    simp only [lineStart, Nat.succ_ne_zero, if_false]
    omega
  · intro next hnext
    have hmem : (ofText text).starts[line + 1]? = some next := by
      rw [hstarts, List.getElem?_cons_succ]
      exact hnext
    obtain ⟨hexists, -⟩ := Array.getElem?_eq_some_iff.mp hmem
    have hafter := hbehind hexists
    simp only [Array.getD_eq_getD_getElem?, hmem, Option.getD_some] at hafter
    omega

/-- The line of a place is one more than the number of line feeds before it, and the column one more than the number of
characters since the last of them. Past the end of the text the columns go on. -/
theorem LineIndex.position_ofText (text : Text) (offset : Nat) :
    (ofText text).position offset =
      ⟨((text.take offset).count '\n' + 1 : Nat),
        ((lastLine (text.take offset)).length + (offset - text.length) + 1 : Nat), offset⟩ := by
  obtain ⟨line, hline, honLine⟩ := exists_onLine text offset
  obtain ⟨hcount, hplace⟩ := honLine.eq_count
  rw [hcount] at hline hplace
  simp only [position, hline, Position.mk.injEq, true_and, and_true]
  omega

/-- The position of a place depends on the text before it only. -/
theorem LineIndex.position_take_append {text : Text} {offset stop : Nat} (h : offset ≤ stop)
    (hstop : stop ≤ text.length) (more : Text) :
    (ofText (text.take stop ++ more)).position offset = (ofText text).position offset := by
  have hlength : (text.take stop).length = stop := List.length_take_of_le hstop
  have htake : (text.take stop ++ more).take offset = text.take offset := by
    rw [List.take_append_of_le_length (by omega), List.take_take, Nat.min_eq_left h]
  have hwithin : offset - (text.take stop ++ more).length = offset - text.length := by
    rw [List.length_append]
    omega
  rw [position_ofText, position_ofText, htake, hwithin]

/-- A place further on has a greater line, or the same line and a greater column, since on one line both columns count
from the same start. -/
theorem LineIndex.position_lt (text : Text) {a b : Nat} (h : a < b) :
    let p := (ofText text).position a
    let q := (ofText text).position b
    p.line < q.line ∨ p.line = q.line ∧ p.column < q.column := by
  intro p q
  have hcount : (text.take a).count '\n' ≤ (text.take b).count '\n' :=
    (List.take_sublist_take_left (Nat.le_of_lt h)).count_le '\n'
  have hp : p.line = ((text.take a).count '\n' + 1 : Nat) := congrArg Position.line (position_ofText text a)
  have hq : q.line = ((text.take b).count '\n' + 1 : Nat) := congrArg Position.line (position_ofText text b)
  rcases Nat.lt_or_eq_of_le hcount with hless | hsame
  · exact .inl (by omega)
  · have hlines : (ofText text).linesUpTo a 0 (ofText text).starts.size =
        (ofText text).linesUpTo b 0 (ofText text).starts.size := by
      have hcast : p.line = q.line := by rw [hp, hq, hsame]
      exact Int.ofNat_inj.mp hcast
    right
    refine ⟨by omega, ?_⟩
    simp only [p, q, position, hlines]
    omega

theorem notMem_lastLine (text : Text) : '\n' ∉ lastLine text := by
  intro h
  rw [lastLine, List.mem_reverse] at h
  have hnot := List.mem_takeWhile_imp h
  simp at hnot

/-- The last line of a text that has a line feed stands behind the last of them. -/
theorem exists_feed_lastLine {text : Text} (h : '\n' ∈ text) : ∃ front, text = front ++ '\n' :: lastLine text := by
  induction text with
  | nil => cases h
  | cons c text ih =>
    by_cases hmem : '\n' ∈ text
    · rw [lastLine_cons_of_mem hmem]
      obtain ⟨front, hfront⟩ := ih hmem
      exact ⟨c :: front, congrArg (c :: ·) hfront⟩
    · have hc : c = '\n' := by
        rcases List.mem_cons.mp h with hc | hrest
        · exact hc.symm
        · exact absurd hrest hmem
      rw [hc, lastLine_cons_feed, lastLine_of_notMem hmem]
      exact ⟨[], rfl⟩

/-- A line, counted from one, starts at a place: the first line with the text, and every other line just behind the line
feed that ends the line before it. -/
inductive StartsLine (text : Text) : Nat → Nat → Prop where
  /-- The first line. -/
  | first : StartsLine text 1 0
  /-- The line behind a line feed. -/
  | behind {front rest : Text} : text = front ++ '\n' :: rest →
      StartsLine text (front.count '\n' + 2) (front.length + 1)

/-- The start of a line has the number of the line and the first column. -/
theorem StartsLine.position_eq {text : Text} {line start : Nat} (h : StartsLine text line start) :
    (LineIndex.ofText text).position start = ⟨line, 1, start⟩ := by
  rw [LineIndex.position_ofText]
  cases h with
  | first => simp [lastLine]
  | @behind front rest htext =>
    have htake : text.take (front.length + 1) = front ++ ['\n'] := by
      rw [htext, List.append_cons, List.take_left' (by simp)]
    have hlength : front.length + 1 - text.length = 0 := by
      rw [htext, List.length_append, List.length_cons]
      omega
    have hline : lastLine (front ++ ['\n']) = [] := by simp [lastLine]
    have hcount : (front ++ ['\n']).count '\n' = front.count '\n' + 1 := by simp
    rw [htake, hlength, hline, hcount]
    rfl

/-- Every place is on a line, behind its start by one less than its column. -/
theorem exists_startsLine (text : Text) (offset : Nat) :
    ∃ start, StartsLine text ((text.take offset).count '\n' + 1) start ∧
      offset = start + ((lastLine (text.take offset)).length + (offset - text.length)) := by
  have hlength := List.length_take (i := offset) (l := text)
  by_cases hmem : '\n' ∈ text.take offset
  · obtain ⟨front, hfront⟩ := exists_feed_lastLine hmem
    have htext : text = front ++ '\n' :: (lastLine (text.take offset) ++ text.drop offset) :=
      calc text = text.take offset ++ text.drop offset := (List.take_append_drop offset text).symm
        _ = front ++ '\n' :: lastLine (text.take offset) ++ text.drop offset := by rw [← hfront]
        _ = _ := by simp
    have hcount : (text.take offset).count '\n' = front.count '\n' + 1 := by
      rw [hfront, List.count_append, List.count_cons_self, List.count_eq_zero.mpr (notMem_lastLine _)]
    have hplace := congrArg List.length hfront
    rw [List.length_append, List.length_cons, hlength] at hplace
    rw [hcount]
    exact ⟨front.length + 1, .behind htext, by omega⟩
  · rw [List.count_eq_zero.mpr hmem, lastLine_of_notMem hmem, hlength]
    exact ⟨0, .first, by omega⟩

/-- The order of reading: by lines, and along a line by columns. -/
def Position.Precedes (p q : Position) : Prop := p.line < q.line ∨ p.line = q.line ∧ p.column < q.column

/-- Positions are in the order of their offsets. -/
theorem LineIndex.precedes_iff (text : Text) (a b : Nat) :
    ((ofText text).position a).Precedes ((ofText text).position b) ↔ a < b := by
  constructor
  · intro h
    by_contra hnot
    rcases Nat.lt_or_eq_of_le (Nat.le_of_not_lt hnot) with hlt | heq
    · have hback := position_lt text hlt
      unfold Position.Precedes at h
      omega
    · rw [heq] at h
      unfold Position.Precedes at h
      omega
  · exact position_lt text

/-- Line and column determine a place. -/
theorem LineIndex.offset_unique (text : Text) {a b : Nat}
    (hline : ((ofText text).position a).line = ((ofText text).position b).line)
    (hcolumn : ((ofText text).position a).column = ((ofText text).position b).column) : a = b := by
  have hab := (precedes_iff text a b).mpr
  have hba := (precedes_iff text b a).mpr
  unfold Position.Precedes at hab hba
  omega

/-- The position of a place by counting. Its line is one more than the number of line feeds before the place. Its column
is one more than the number of characters since the last of them, and past the end of the text one more for each place.
So positions grow with the offset, line first and then column. The line of the place has one start, which the index
lists under the number of the line, and the column leads from there back to the place. -/
theorem LineIndex.position_counts (text : Text) (offset : Nat) :
    let index := ofText text
    let p := index.position offset
    p.line = 1 + ((text.take offset).count '\n' : Nat) ∧
    p.column = 1 + ((lastLine (text.take offset)).length : Nat) + (offset - text.length : Nat) ∧
    (∀ later : Nat, p.Precedes (index.position later) ↔ offset < later) ∧
    ∃ start : Nat, (∀ other, StartsLine text p.line.toNat other ↔ other = start) ∧
      index.starts[p.line.toNat - 1]? = some start ∧ (offset : Int) = start + (p.column - 1) := by
  intro index p
  have hp : p = _ := position_ofText text offset
  have hline : p.line.toNat = (text.take offset).count '\n' + 1 := by
    rw [hp]
    rfl
  obtain ⟨start, hstart, hplace⟩ := exists_startsLine text offset
  refine ⟨?_, ?_, precedes_iff text offset, start, ?_, ?_, ?_⟩
  · rw [hp]
    dsimp only
    omega
  · rw [hp]
    dsimp only
    omega
  · intro other
    rw [hline]
    constructor
    · intro hother
      refine offset_unique text ?_ ?_
      · rw [hother.position_eq, hstart.position_eq]
      · rw [hother.position_eq, hstart.position_eq]
    · rintro rfl
      exact hstart
  · obtain ⟨line, hfound, honLine⟩ := exists_onLine text offset
    have hcount := honLine.eq_count
    have hsame : (ofText text).lineStart (line + 1) = start := by omega
    rw [hline, Nat.add_sub_cancel, ← hcount.1, ← hsame]
    have hstarts := honLine.start_eq
    simpa [index, ofText] using hstarts
  · rw [hp]
    dsimp only
    omega

/-- The offset of a place that is given by its line and its character, both counted from zero. A line ends before its
line feed, and there are no places behind its end. -/
def offsetOf? : Text → Nat → Nat → Option Nat
  | _, 0, 0 => some 0
  | [], _, _ => none
  | c :: rest, 0, character + 1 => if c == '\n' then none else (offsetOf? rest 0 character).map (· + 1)
  | c :: rest, line + 1, character =>
    (offsetOf? rest (if c == '\n' then line else line + 1) character).map (· + 1)

/-- The line feeds of the text in front and the characters behind the last of them lead to the end of that text. -/
theorem offsetOf?_append (front rest : Text) :
    offsetOf? (front ++ rest) (front.count '\n') (lastLine front).length = some front.length := by
  induction front with
  | nil => simp [lastLine, offsetOf?]
  | cons c front ih =>
    by_cases hc : c = '\n'
    · rw [hc, lastLine_cons_feed, List.count_cons_self, List.cons_append, offsetOf?]
      simp [ih]
    · rw [List.count_cons_of_ne hc, List.cons_append]
      by_cases hmem : '\n' ∈ front
      · obtain ⟨line, hline⟩ := Nat.exists_eq_succ_of_ne_zero (List.count_pos_iff.mpr hmem).ne'
        rw [lastLine_cons_of_mem hmem, hline, offsetOf?]
        rw [hline] at ih
        simp [hc, ih]
      · have hall : '\n' ∉ c :: front := by simp [hmem, Ne.symm hc]
        rw [lastLine_of_notMem hmem, List.count_eq_zero.mpr hmem] at ih
        rw [lastLine_of_notMem hall, List.count_eq_zero.mpr hmem, List.length_cons, offsetOf?]
        simp [hc, ih]

/-- The offset of a place whose line and character may be any numbers; there are no places before the first ones. -/
def placeOf? (text : Text) (line character : Int) : Option Nat :=
  if 0 ≤ line ∧ 0 ≤ character then offsetOf? text line.toNat character.toNat else none

/-- Line and column of a place in the text lead back to it. -/
theorem LineIndex.placeOf?_position {text : Text} {offset : Nat} (h : offset ≤ text.length) :
    placeOf? text (((ofText text).position offset).line - 1) (((ofText text).position offset).column - 1) =
      some offset := by
  have hback := offsetOf?_append (text.take offset) (text.drop offset)
  rw [List.take_append_drop, List.length_take_of_le h] at hback
  have hend : offset - text.length = 0 := by omega
  rw [position_ofText, hend, placeOf?, if_pos (by dsimp only; omega)]
  simpa using hback

end ComponentTags
