import ComponentTags.Proofs.LoopTurns
import ComponentTags.Proofs.WrongClosing

/-!
# The turns of a scan

The cut of a window into segments and the search for a closing tag go from one `<` to the next: a turn looks for the
next `<` of the window, and it goes on behind that `<` or behind the tag that begins there. The library reads the same
windows one character after another. Both are compared here.

A turn never leaves the window, because a tag that is recognised lies in the window in which it was looked for, and so
does the closing tag of a component.
-/

namespace ComponentTags

/-- The offset of the first `<` of a text from `place` on and before `stop`. -/
def nextAngle? (source : Text) (place stop : Nat) : Option Nat :=
  ((Extent.slice source ⟨place, stop⟩).idxOf? '<').map (place + ·)

/-- A text is split at its first `<`. -/
theorem exists_front_of_idxOf? {w : Text} {i : Nat} (h : w.idxOf? '<' = some i) :
    ∃ front rest, w = front ++ '<' :: rest ∧ '<' ∉ front ∧ i = front.length := by
  induction w generalizing i with
  | nil => simp at h
  | cons c w ih =>
    rw [List.idxOf?_cons] at h
    split at h
    · next hc => exact ⟨[], w, by simpa using hc, by simp, (Option.some.inj h).symm⟩
    · next hc =>
      obtain ⟨n, hn, rfl⟩ := Option.map_eq_some_iff.mp h
      obtain ⟨front, rest, rfl, hfront, rfl⟩ := ih hn
      have hne : '<' ≠ c := fun heq => hc (beq_iff_eq.mpr heq.symm)
      exact ⟨c :: front, rest, rfl, List.not_mem_cons_of_ne_of_not_mem hne hfront, rfl⟩

section Windows

variable {source : Text} {place stop : Nat}

/-- The `<` that is found lies in the window, and no other one stands before it. -/
theorem nextAngle?_eq_some {angle : Nat} (h : nextAngle? source place stop = some angle) :
    place ≤ angle ∧ angle < stop ∧ '<' ∉ Extent.slice source ⟨place, angle⟩ ∧
      source.drop angle = '<' :: source.drop (angle + 1) := by
  obtain ⟨i, hi, rfl⟩ := Option.map_eq_some_iff.mp h
  obtain ⟨front, rest, hslice, hfront, rfl⟩ := exists_front_of_idxOf? hi
  have hle : (Extent.slice source ⟨place, stop⟩).length ≤ stop - place := List.length_take_le _ _
  rw [hslice, List.length_append, List.length_cons] at hle
  obtain ⟨behind, hplace⟩ : ∃ behind, source.drop place = front ++ '<' :: behind := by
    refine ⟨rest ++ (source.drop place).drop (stop - place), ?_⟩
    rw [← List.cons_append, ← List.append_assoc, ← hslice]
    exact (List.take_append_drop _ _).symm
  have hangle : source.drop (place + front.length) = '<' :: behind := by
    rw [← List.drop_drop, hplace, List.drop_left]
  refine ⟨Nat.le_add_right _ _, by omega, ?_, ?_⟩
  · rw [Extent.slice_of_drop hplace]
    exact hfront
  · rw [hangle, drop_behind hangle Nat.one_pos]
    rfl

/-- Where no `<` is found, none stands in the window. -/
theorem nextAngle?_eq_none (h : nextAngle? source place stop = none) : '<' ∉ Extent.slice source ⟨place, stop⟩ :=
  List.idxOf?_eq_none_iff.mp (Option.map_eq_none_iff.mp h)

/-- A stretch of a text is as long as its offsets say. -/
theorem Extent.length_slice (h : stop ≤ source.length) : (slice source ⟨place, stop⟩).length = stop - place := by
  simp only [slice, List.length_take, List.length_drop]
  omega

/-- What a text has from a place on begins with any stretch that begins there. -/
theorem Extent.slice_append_drop (h : place ≤ stop) :
    slice source ⟨place, stop⟩ ++ source.drop stop = source.drop place := by
  have hstop : source.drop stop = (source.drop place).drop (stop - place) := by
    rw [List.drop_drop, Nat.add_sub_cancel' h]
  rw [hstop]
  exact List.take_append_drop _ _

/-- Two stretches of a text that meet are one stretch. -/
theorem Extent.slice_append_slice {start : Nat} (hstart : start ≤ place) (h : place ≤ stop) :
    slice source ⟨start, place⟩ ++ slice source ⟨place, stop⟩ = slice source ⟨start, stop⟩ := by
  have hsize : stop - start = (place - start) + (stop - place) := by omega
  simp only [slice, hsize, List.take_add, List.drop_drop, Nat.add_sub_cancel' hstart]

end Windows

section Skip

variable {front : Text} (h : '<' ∉ front)
include h

/-- The search for a closing tag passes over a text without a `<`. -/
theorem findClosing_skip (innermost : Opened) (outer : List Opened) (offset left : Nat) (rest : Text) :
    findClosing innermost outer offset (front.length + left) (front ++ rest) =
      findClosing innermost outer (offset + front.length) left rest := by
  induction front generalizing offset with
  | nil => simp
  | cons c front ih =>
    obtain ⟨hc, hfront⟩ : '<' ≠ c ∧ '<' ∉ front := by simpa using h
    rw [List.length_cons, List.cons_append, Nat.add_right_comm, findClosing_character fun heq => absurd heq hc.symm,
      ih hfront, Nat.add_right_comm, Nat.add_assoc]

/-- The cut adds a text without a `<` to what it has read. -/
theorem scanFrom_skip (textStart : Nat) (pending : Text) (offset left : Nat) (rest : Text) :
    scanFrom textStart pending offset (front.length + left) (front ++ rest) =
      scanFrom textStart (front.reverse ++ pending) (offset + front.length) left rest := by
  induction front generalizing pending offset with
  | nil => simp
  | cons c front ih =>
    obtain ⟨hc, hfront⟩ : '<' ≠ c ∧ '<' ∉ front := by simpa using h
    rw [List.length_cons, List.cons_append, Nat.add_right_comm, scanFrom_character fun heq => absurd heq hc.symm,
      ih hfront, Nat.add_right_comm, Nat.add_assoc, List.reverse_cons, List.append_assoc]
    rfl

end Skip

section SkipWindow

variable {source : Text} {place next stop : Nat} (hle : place ≤ next) (hnext : next ≤ stop)
  (hlength : next ≤ source.length) (h : '<' ∉ Extent.slice source ⟨place, next⟩)
include hle hnext hlength h

/-- The search for a closing tag can go on from the next `<`. -/
theorem findClosing_move (innermost : Opened) (outer : List Opened) :
    findClosing innermost outer place (stop - place) (source.drop place) =
      findClosing innermost outer next (stop - next) (source.drop next) := by
  have hskip := findClosing_skip h innermost outer place (stop - next) (source.drop next)
  rwa [Extent.length_slice hlength, Extent.slice_append_drop hle, Nat.add_sub_cancel' hle,
    show next - place + (stop - next) = stop - place by omega] at hskip

/-- The cut can go on from the next `<`, with the text up to there still pending. -/
theorem scanFrom_move {textStart : Nat} (hstart : textStart ≤ place) :
    scanFrom textStart (Extent.slice source ⟨textStart, place⟩).reverse place (stop - place) (source.drop place) =
      scanFrom textStart (Extent.slice source ⟨textStart, next⟩).reverse next (stop - next) (source.drop next) := by
  have hskip := scanFrom_skip h textStart (Extent.slice source ⟨textStart, place⟩).reverse place (stop - next)
    (source.drop next)
  rwa [Extent.length_slice hlength, Extent.slice_append_drop hle, Nat.add_sub_cancel' hle,
    show next - place + (stop - next) = stop - place by omega, ← List.reverse_append,
    Extent.slice_append_slice hstart hle] at hskip

end SkipWindow

/-- The state of the search for a closing tag. -/
structure ClosingSearch where
  /-- The place to be read next. -/
  place : Nat
  /-- The innermost component that is open. -/
  innermost : Opened
  /-- The other ones, from the inside out. -/
  outer : List Opened

/-- The state of a cut. -/
structure Cut where
  /-- The place to be read next. -/
  place : Nat
  /-- Where the text begins that belongs to no segment yet. -/
  textStart : Nat
  /-- The segments that have been found, in their order. -/
  found : List Segment

section Scans

variable (source : Text) (stop : Nat)

/-- Look for a closing tag, one `<` a turn. -/
def closingLoop : Loop ClosingSearch (Except Failure Extent) where
  turn s :=
    match nextAngle? source s.place stop with
    | none => .stop (.error s.innermost.neverClosed)
    | some angle =>
      match markAt? (stop - (angle + 1)) (source.drop (angle + 1)) with
      | .error e => .stop (.error (e.shift angle))
      | .ok none => .goOn { s with place := angle + 1 }
      | .ok (some (.closing m)) =>
        if m.name == s.innermost.name then
          match s.outer with
          | [] => .stop (.ok ⟨angle, angle + m.size⟩)
          | o :: outer => .goOn ⟨angle + m.size, o, outer⟩
        else .stop (.error (.because (.closesOther m.name s.innermost.name) angle (angle + m.size)))
      | .ok (some (.opening m)) =>
        if m.selfClosing then .goOn { s with place := angle + m.size }
        else .goOn ⟨angle + m.size, ⟨m.name, angle⟩, s.innermost :: s.outer⟩
  place := ClosingSearch.place

/-- The characters between two places as a segment, unless there are none. -/
def textBetween (start stop : Nat) : List Segment :=
  pendingText start stop (Extent.slice source ⟨start, stop⟩).reverse

/-- Cut a window into segments, one `<` a turn. A component is completed within the turn that meets its opening tag. -/
def scanLoop : Loop Cut Scan where
  turn s :=
    match nextAngle? source s.place stop with
    | none => .stop ⟨s.found ++ textBetween source s.textStart stop, none⟩
    | some angle =>
      match markAt? (stop - (angle + 1)) (source.drop (angle + 1)) with
      | .error e => .stop ⟨s.found, some (e.shift angle)⟩
      | .ok none => .goOn { s with place := angle + 1 }
      | .ok (some (.closing m)) =>
        .stop ⟨s.found, some (.because (.closesNothing m.name) angle (angle + m.size))⟩
      | .ok (some (.opening m)) =>
        let found := s.found ++ textBetween source s.textStart angle
        match closingOf? m angle (stop - (angle + 1)) (source.drop (angle + 1)) with
        | .error e => .stop ⟨found, some e⟩
        | .ok closing =>
          let component := Component.ofMark m angle closing
          .goOn ⟨component.extent.stop, component.extent.stop, found ++ [.component component]⟩
  place := Cut.place

/-- What a turn of the search for a closing tag that goes on has met: a `<` in the window, and there plain text or a
tag. -/
theorem closingLoop_goOn {s next : ClosingSearch} (h : (closingLoop source stop).turn s = .goOn next) :
    ∃ angle, nextAngle? source s.place stop = some angle ∧ (next.place = angle + 1 ∨
      ∃ m, markAt? (stop - (angle + 1)) (source.drop (angle + 1)) = .ok (some m) ∧ next.place = angle + m.size) := by
  unfold closingLoop at h
  grind [Mark.size]

/-- The search for a closing tag advances in its window. -/
theorem closingLoop_advances : (closingLoop source stop).Advances stop fun _ => False := by
  intro s next hturn
  obtain ⟨angle, hangle, hnext⟩ := closingLoop_goOn source stop hturn
  obtain ⟨hle, hlt, -, -⟩ := nextAngle?_eq_some hangle
  dsimp only [closingLoop]
  rcases hnext with hplace | ⟨m, hm, hplace⟩
  · omega
  · have hpos := Mark.size_pos hm
    have hsize := Mark.size_le hm
    omega

/-- What a turn of a cut that goes on has met: a `<` in the window, and there plain text or a component. -/
theorem scanLoop_goOn {s next : Cut} (h : (scanLoop source stop).turn s = .goOn next) :
    ∃ angle, nextAngle? source s.place stop = some angle ∧
      (next = { s with place := angle + 1 } ∨ ∃ m closing,
        markAt? (stop - (angle + 1)) (source.drop (angle + 1)) = .ok (some (.opening m)) ∧
        closingOf? m angle (stop - (angle + 1)) (source.drop (angle + 1)) = .ok closing ∧
        next.place = (Component.ofMark m angle closing).extent.stop ∧ next.textStart = next.place) := by
  unfold scanLoop at h
  grind

/-- A cut advances in its window. -/
theorem scanLoop_advances : (scanLoop source stop).Advances stop fun _ => False := by
  intro s next hturn
  obtain ⟨angle, hangle, hnext⟩ := scanLoop_goOn source stop hturn
  obtain ⟨hle, hlt, -, hdrop⟩ := nextAngle?_eq_some hangle
  dsimp only [scanLoop]
  rcases hnext with rfl | ⟨m, closing, hm, hclosing, hplace, -⟩
  · dsimp only
    omega
  · have hstop := closingOf?_stop_le hm hclosing
    obtain ⟨hstart, -⟩ := closingOf?_ok hm hdrop hclosing rfl
    omega

end Scans

section Values

variable {source : Text} {stop : Nat}

/-- What the window has left behind a tag, counted from the tag's `<` or from the place behind it. -/
theorem window_behind_mark {angle size : Nat} (hangle : source.drop angle = '<' :: source.drop (angle + 1))
    (hsize : 0 < size) : stop - (angle + 1) - (size - 1) = stop - (angle + size) ∧
      (source.drop (angle + 1)).drop (size - 1) = source.drop (angle + size) :=
  ⟨by omega, (drop_behind hangle hsize).symm⟩

/-- The loop comes to the closing tag that the search comes to which is not cut into turns. Both kinds of tag are left
at their ends. -/
theorem closingLoop_computes (hstop : stop ≤ source.length) : (closingLoop source stop).Computes (fun _ => True)
    fun s => findClosing s.innermost s.outer s.place (stop - s.place) (source.drop s.place) where
  keeps := fun _ _ _ _ => trivial
  value_eq := by
    rintro ⟨place, innermost, outer⟩ _
    dsimp only [closingLoop]
    cases hangle : nextAngle? source place stop with
    | none =>
      rcases Nat.le_total place stop with hle | hle
      · rw [findClosing_move hle (Nat.le_refl _) hstop (nextAngle?_eq_none hangle), Nat.sub_self, findClosing]
        rfl
      · rw [Nat.sub_eq_zero_of_le hle, findClosing]
        rfl
    | some angle =>
      obtain ⟨hle, hlt, hfront, hdrop⟩ := nextAngle?_eq_some hangle
      rw [findClosing_move hle (Nat.le_of_lt hlt) (by omega) hfront, left_eq_succ hlt, hdrop, findClosing,
        if_pos (beq_self_eq_true _)]
      dsimp only
      cases hm : markAt? (stop - (angle + 1)) (source.drop (angle + 1)) with
      | error e => rfl
      | ok found =>
        cases found with
        | none => rfl
        | some m =>
          obtain ⟨hleft, hbehind⟩ := window_behind_mark hdrop (Mark.size_pos hm)
          cases m with
          | closing m =>
            dsimp only [Mark.size] at hleft hbehind ⊢
            rw [hleft, hbehind]
            split
            · cases outer <;> rfl
            · rfl
          | opening m =>
            dsimp only [Mark.size] at hleft hbehind ⊢
            rw [hleft, hbehind]
            split <;> rfl

/-- The states of a cut that is within its window: the text that belongs to no segment lies before the place. -/
def Cut.Within (stop : Nat) (s : Cut) : Prop := s.textStart ≤ s.place ∧ s.place ≤ stop

/-- What a cut comes to from a state on. -/
def Cut.value (source : Text) (stop : Nat) (s : Cut) : Scan :=
  let following := scanFrom s.textStart (Extent.slice source ⟨s.textStart, s.place⟩).reverse s.place (stop - s.place)
    (source.drop s.place)
  ⟨s.found ++ following.segments, following.failure⟩

/-- The loop makes the cut of the window, behind the segments that it has made before. It goes on behind each component,
where no text has been read yet. -/
theorem scanLoop_computes (hstop : stop ≤ source.length) :
    (scanLoop source stop).Computes (Cut.Within stop) (Cut.value source stop) where
  keeps := by
    rintro s next ⟨hstart, hplace⟩ hturn
    obtain ⟨-, hforward, hbound⟩ := scanLoop_advances source stop s next hturn
    have hle : next.place ≤ stop := hbound.resolve_right (by simp)
    obtain ⟨angle, -, hnext⟩ := scanLoop_goOn source stop hturn
    refine ⟨?_, hle⟩
    rcases hnext with rfl | ⟨m, closing, -, -, -, htext⟩
    · exact Nat.le_trans hstart (Nat.le_of_lt hforward)
    · exact Nat.le_of_eq htext
  value_eq := by
    rintro ⟨place, textStart, found⟩ ⟨hstart, hplace⟩
    dsimp only at hstart hplace
    dsimp only [scanLoop, Cut.value]
    cases hangle : nextAngle? source place stop with
    | none =>
      rw [scanFrom_move hplace (Nat.le_refl _) hstop (nextAngle?_eq_none hangle) hstart, Nat.sub_self, scanFrom]
      rfl
    | some angle =>
      obtain ⟨hle, hlt, hfront, hdrop⟩ := nextAngle?_eq_some hangle
      rw [scanFrom_move hle (Nat.le_of_lt hlt) (by omega) hfront hstart, left_eq_succ hlt, hdrop]
      dsimp only
      cases hm : markAt? (stop - (angle + 1)) (source.drop (angle + 1)) with
      | error e => simp [scanFrom, hm, Turn.comesTo]
      | ok mark =>
        cases mark with
        | none =>
          have hmark : Extent.slice source ⟨angle, angle + 1⟩ = ['<'] := by simp [Extent.slice, hdrop]
          have hslice : Extent.slice source ⟨textStart, angle + 1⟩ =
              Extent.slice source ⟨textStart, angle⟩ ++ ['<'] := by
            rw [← Extent.slice_append_slice (Nat.le_trans hstart hle) (Nat.le_succ angle), hmark]
          rw [scanFrom_character fun _ => hm]
          simp [Turn.comesTo, Cut.value, hslice]
        | some m =>
          cases m with
          | closing m =>
            rw [scanFrom_closing hm]
            simp [Turn.comesTo]
          | opening m =>
            dsimp only
            cases hclosing : closingOf? m angle (stop - (angle + 1)) (source.drop (angle + 1)) with
            | error e =>
              rw [scanFrom_unclosed hm hclosing]
              rfl
            | ok closing =>
              obtain ⟨hbegin, -⟩ := closingOf?_ok hm hdrop hclosing rfl
              rw [scanFrom_component hm hclosing rfl]
              dsimp only [Turn.comesTo, Cut.value]
              generalize Component.ofMark m angle closing = component at hbegin ⊢
              have hend : angle + (component.extent.stop - angle) = component.extent.stop := by omega
              obtain ⟨hleft, hbehind⟩ := window_behind_mark hdrop (by omega : 0 < component.extent.stop - angle)
              rw [hleft, hbehind, hend]
              simp [Scan.behind, textBetween, Extent.slice]

end Values

end ComponentTags
