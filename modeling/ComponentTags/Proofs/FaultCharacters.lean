import ComponentTags.Proofs.FaultPlaces
import ComponentTags.Proofs.TagInterior

/-!
# Faults are shown from a character that can be seen

The place at which a fault is shown is that of a tag, a quote, a bracket, a name or of a character that cannot stand
where it stands. None of these is a blank, so that a fault is never shown at the end of a line or at a blank before it.
The one exception among the faults of attribute lists, a bracket that is missing at the end of the list, does not arise
in the attribute list of a tag.
-/

namespace ComponentTags

/-- The failure is a fault, and it is shown from a character on that is no blank. -/
def Failure.Visible (text : Text) (e : Failure) : Prop :=
  ∃ f c, e = .fault f ∧ text[f.extent.start]? = some c ∧ isBlank c = false

/-- A fault is shown at a character that is not a blank. -/
theorem Failure.visible_because {text : Text} {cause : Cause} {start stop : Nat} {c : Char}
    (hc : text[start]? = some c) (hb : isBlank c = false) : (because cause start stop).Visible text :=
  ⟨_, c, rfl, hc, hb⟩

theorem getElem?_of_drop {whole rest : Text} {offset : Nat} {c : Char} (h : whole.drop offset = c :: rest) :
    whole[offset]? = some c := by
  rw [← List.head?_drop, h]
  rfl

/-- A failure of a text that is set behind another one. -/
theorem Failure.Visible.shift {text : Text} {e : Failure} (h : e.Visible text) (front : Text) :
    (e.shift front.length).Visible (front ++ text) := by
  obtain ⟨f, c, rfl, hc, hb⟩ := h
  refine ⟨_, c, rfl, ?_, hb⟩
  dsimp only [Extent.shift]
  rw [List.getElem?_append_right (Nat.le_add_right _ _), Nat.add_sub_cancel_left]
  exact hc

section Readers

variable {whole text name : Text} {offset left : Nat} {e : Failure}

/-- The search for the end of a tag fails at a quote or at a bracket that it has met. -/
theorem tagEnd_visible {brackets : List OpenBracket} (h : tagEnd brackets offset left text = .error e)
    (hw : whole.drop offset = text) (hl : left ≤ text.length)
    (hb : ∀ b ∈ brackets, ∃ c, whole[b.offset]? = some c ∧ isBlank c = false) : e.Visible whole := by
  fun_induction tagEnd brackets offset left text with
  | case1 => cases h
  | case2 offset text b outer =>
    obtain rfl := Except.error.inj h
    obtain ⟨c, hc, hblank⟩ := hb b List.mem_cons_self
    exact Failure.visible_because hc hblank
  | case3 => simp at hl
  | case4 brackets offset left c rest hc size hq ih =>
    obtain ⟨body, behind, rfl, -, rfl, hsize⟩ := quotedRest_of_quoteEnd hq
    refine ih h ?_ (by simp at hl ⊢; omega) hb
    rw [Nat.add_assoc, drop_behind hw (by omega), Nat.add_sub_cancel_left]
  | case5 brackets offset left c rest hc hq =>
    obtain rfl := Except.error.inj h
    exact Failure.visible_because (getElem?_of_drop hw) (isQuote_eq_true hc).1
  | case6 brackets offset left c rest hc hq => exact absurd hq (quoteEnd_ne_outOfText (by simpa using hl))
  | case7 brackets offset left c rest hc closer ho ih =>
    have hopener : ∃ d, whole[offset]? = some d ∧ isBlank d = false :=
      ⟨c, getElem?_of_drop hw, (closerOf?_eq_some ho).2.1⟩
    exact ih h (drop_behind hw Nat.one_pos) (by simpa using hl) (List.forall_mem_cons.mpr ⟨hopener, hb⟩)
  | case8 => cases h
  | case9 offset left c rest hc ho hgt ih => exact ih h (drop_behind hw Nat.one_pos) (by simpa using hl) hb
  | case10 offset left c rest hc ho b outer hcloser ih =>
    exact ih h (drop_behind hw Nat.one_pos) (by simpa using hl) (List.forall_mem_cons.mp hb).2
  | case11 offset left c rest hc ho b outer hcloser ih =>
    exact ih h (drop_behind hw Nat.one_pos) (by simpa using hl) hb

/-- A bare value is at fault at a closing bracket, unless something is left open at its end. -/
theorem bareSize_visible {expected : List Char} (h : bareSize name expected offset left text = .error e)
    (hw : whole.drop offset = text) (hl : left ≤ text.length) (hu : ¬e.IsUnclosed) : e.Visible whole := by
  fun_induction bareSize name expected offset left text with
  | case1 => cases h
  | case2 offset text closer outer =>
    obtain rfl := Except.error.inj h
    exact absurd ⟨_, rfl, .inr ⟨closer, name, rfl⟩⟩ hu
  | case3 => simp at hl
  | case4 => cases h
  | case5 expected offset left c rest hc hq size he ih =>
    obtain ⟨body, behind, rfl, -, rfl, hsize⟩ := quotedRest_of_quoteEnd he
    refine ih (bind_return_eq_error h) ?_ (by simp at hl ⊢; omega)
    rw [Nat.add_assoc, drop_behind hw (by omega), Nat.add_sub_cancel_left]
  | case6 =>
    obtain rfl := Except.error.inj h
    exact absurd ⟨_, rfl, .inl rfl⟩ hu
  | case7 expected offset left c rest hc hq he => exact absurd he (quoteEnd_ne_outOfText (by simpa using hl))
  | case8 expected offset left c rest hc hq closer ho ih =>
    exact ih (bind_return_eq_error h) (drop_behind hw Nat.one_pos) (by simpa using hl)
  | case9 offset left c rest hq ho hcloser =>
    obtain rfl := Except.error.inj h
    exact Failure.visible_because (getElem?_of_drop hw) (isCloser_eq_true hcloser).2.1
  | case10 offset left c rest hq ho hcloser closer outer hc hm ih =>
    exact ih (bind_return_eq_error h) (drop_behind hw Nat.one_pos) (by simpa using hl)
  | case11 offset left c rest hq ho hcloser =>
    obtain rfl := Except.error.inj h
    exact Failure.visible_because (getElem?_of_drop hw) (isCloser_eq_true hcloser).2.1
  | case12 expected offset left c rest hc hq ho hcloser ih =>
    exact ih (bind_return_eq_error h) (drop_behind hw Nat.one_pos) (by simpa using hl)

/-- A quoted value is at fault at the character that touches it. -/
theorem quotedSize_visible {quote : Char} (h : quotedSize name quote offset left text = .error e)
    (hw : whole.drop (offset + 1) = text) (hl : left ≤ text.length) (hu : ¬e.IsUnclosed) : e.Visible whole := by
  unfold quotedSize at h
  split at h
  · next size he =>
    split at h
    · cases h
    · next n hn hd =>
      have hlength := congrArg List.length hd
      simp only [List.length_drop, List.length_nil] at hlength
      omega
    · next c behind hn hd =>
      split at h
      · cases h
      · next hblank =>
        obtain rfl := Except.error.inj h
        have hplace : whole.drop (offset + size + 1) = c :: behind := by
          rw [Nat.add_right_comm, ← List.drop_drop, hw, hd]
        exact Failure.visible_because (getElem?_of_drop hplace) (by simpa using hblank)
  · obtain rfl := Except.error.inj h
    exact absurd ⟨_, rfl, .inl rfl⟩ hu
  · next he => exact absurd he (quoteEnd_ne_outOfText hl)

/-- A value that is missing is at fault at its name. -/
theorem valueSize_visible {start : Nat} {initial : Char} (h : valueSize name start offset left text = .error e)
    (hw : whole.drop offset = text) (hl : left ≤ text.length) (hu : ¬e.IsUnclosed)
    (hi : whole[start]? = some initial) (hb : isBlank initial = false) : e.Visible whole := by
  unfold valueSize at h
  split at h
  · obtain rfl := Except.error.inj h
    exact Failure.visible_because hi hb
  · simp at hl
  · next left c rest =>
    split at h
    · exact quotedSize_visible h (drop_behind hw Nat.one_pos) (by simpa using hl) hu
    · exact bareSize_visible h hw hl hu

end Readers

/-- An attribute is at fault at its first character, at one that touches it or at one of its value. -/
theorem attributeAt_visible {whole w behind : Text} {initial : Char} {offset : Nat} {e : Failure}
    (h : attributeAt initial offset w.length (w ++ behind) = .error e)
    (hw : whole.drop offset = initial :: (w ++ behind)) (hb : isBlank initial = false) (hu : ¬e.IsUnclosed) :
    e.Visible whole := by
  have hinitial := getElem?_of_drop hw
  cases hn : isNameStart initial with
  | false =>
    have hread : attributeAt initial offset w.length (w ++ behind) =
        .error (.because (.notAName initial) offset (offset + 1)) := by
      simp only [attributeAt, hn]
      rfl
    rw [hread] at h
    obtain rfl := Except.error.inj h
    exact Failure.visible_because hinitial hb
  | true =>
    obtain ⟨more, rest, rfl, hmore, hrest⟩ := exists_run isNameChar w
    by_cases hequals : (rest.dropWhile isBlank).head? = some '='
    · obtain ⟨blanks, following, rfl, hblanks, hfollowing⟩ := exists_run isBlank rest
      rw [dropWhile_run hblanks hfollowing] at hequals
      obtain ⟨after, rfl⟩ := List.head?_eq_some_iff.mp hequals
      obtain ⟨padding, value, rfl, hpadding, hvalue⟩ := exists_run isBlank after
      rw [attributeAt_named offset behind hn hmore hblanks hpadding hvalue] at h
      have hplace : whole.drop (offset + 1 + (more.length + blanks.length + 1 + padding.length)) = value ++ behind := by
        have hsplit : initial :: (more ++ (blanks ++ '=' :: (padding ++ value)) ++ behind) =
            (initial :: (more ++ (blanks ++ '=' :: padding))) ++ (value ++ behind) := by simp
        have hlength : offset + 1 + (more.length + blanks.length + 1 + padding.length) =
            offset + (initial :: (more ++ (blanks ++ '=' :: padding))).length := by
          simp only [List.length_cons, List.length_append]
          omega
        rw [hlength, ← List.drop_drop, hw, hsplit, List.drop_left]
      exact valueSize_visible (bind_return_eq_error h) hplace (by simp) hu hinitial hb
    · cases rest with
      | nil =>
        rw [attributeAt_shorthand offset behind hn hmore (by simp) (by simp)] at h
        cases h
      | cons c rest =>
        cases hblank : isBlank c with
        | true =>
          rw [attributeAt_shorthand offset behind hn hmore (by simpa using hblank) hequals] at h
          cases h
        | false =>
          have hne : c ≠ '=' := by
            rintro rfl
            simp [hblank] at hequals
          rw [attributeAt_afterName offset behind hn hmore (hrest c rfl) hblank hne] at h
          obtain rfl := Except.error.inj h
          have hplace : whole.drop (offset + 1 + more.length) = c :: (rest ++ behind) := by
            rw [Nat.add_assoc, drop_behind hw (by omega), Nat.add_sub_cancel_left]
            simp
          exact Failure.visible_because (getElem?_of_drop hplace) hblank

/-- The same for a list. The recursion is on the window, of which each attribute takes a part. -/
theorem attributesFrom_visible {whole : Text} {offset : Nat} (w : Text) {behind : Text} {e : Failure}
    (h : attributesFrom offset w.length (w ++ behind) = .error e) (hw : whole.drop offset = w ++ behind)
    (hu : ¬e.IsUnclosed) : e.Visible whole := by
  obtain ⟨blanks, rest, rfl, hblanks, hrest⟩ := exists_run isBlank w
  cases rest with
  | nil =>
    rw [List.append_nil, attributesFrom_blanks offset behind hblanks] at h
    cases h
  | cons initial rest =>
    have hinitial : isBlank initial = false := hrest initial rfl
    have hplace : whole.drop (offset + blanks.length) = initial :: (rest ++ behind) := by
      rw [← List.drop_drop, hw, List.append_assoc, List.drop_left]
      rfl
    rw [attributesFrom_step offset behind hblanks hinitial] at h
    have hfirst := attributeAt_read initial (offset + blanks.length) rest behind
    cases hread : attributeAt initial (offset + blanks.length) rest.length (rest ++ behind) with
    | error e' =>
      rw [hread] at h
      obtain rfl : e' = e := Except.error.inj h
      exact attributeAt_visible hread hplace hinitial hu
    | ok found =>
      rw [hread] at h hfirst
      obtain ⟨body, others, rfl, hlength, -⟩ := hfirst.written
      obtain ⟨hleft, hdrop⟩ := window_behind body others behind
      rw [ok_bind] at h
      dsimp only at h
      rw [← hlength, hleft, hdrop] at h
      refine attributesFrom_visible others (bind_return_eq_error h) ?_ hu
      rw [Nat.add_assoc _ 1, drop_behind hplace (by omega), Nat.add_sub_cancel_left, hdrop]
termination_by w.length

/-- The fault of an opening tag is shown at its `<`, or at a quote or a bracket in it. -/
theorem openingMark?_visible {left : Nat} {text : Text} {e : Failure} (h : openingMark? left text = .error e)
    (hl : left ≤ text.length) : e.Visible ('<' :: text) := by
  have hmark : ('<' :: text)[0]? = some '<' := rfl
  unfold openingMark? at h
  split at h
  · cases h
  · next initial more hname =>
    obtain ⟨-, behind, rfl⟩ := isTagName_of_tagName hname
    dsimp only at h
    rw [List.drop_left] at h
    split at h
    · obtain rfl := Except.error.inj h
      exact Failure.visible_because hmark (by decide)
    · next c following =>
      split at h
      · split at h
        · next failure hend =>
          obtain rfl : failure = e := Except.error.inj h
          refine tagEnd_visible hend ?_ (by simp at hl ⊢; omega) (by simp)
          rw [List.drop_succ_cons, List.drop_left]
        · obtain rfl := Except.error.inj h
          exact Failure.visible_because hmark (by decide)
        · cases h
      · cases h

/-- The fault that ends the lexemes of a text. -/
theorem lexText_failure_visible {text : Text} {e : Failure} (h : (lexText text).failure = some e) :
    e.Visible text := by
  obtain ⟨front, rest, f, htext, -, hmark, rfl⟩ := lexFrom_failure h (by simp)
  rw [List.drop_zero] at htext
  have hlength : text.length = front.length + (rest.length + 1) := by rw [htext]; simp
  dsimp only at hmark ⊢
  have hvisible := (openingMark?_visible hmark (by omega)).shift front
  rwa [← htext, ← Nat.zero_add front.length] at hvisible

/-- An attribute list at fault. -/
theorem Lexeme.FailsWith.visible {text : Text} {e : Failure} {l : Lexeme} (hl : l ∈ (lexText text).lexemes)
    (h : l.FailsWith text e) : e.Visible text := by
  cases l with
  | character c => exact h.elim
  | closing name extent => exact h.elim
  | opening name attributes extent selfClosing =>
    obtain ⟨w, behind, hw, hstop, hi⟩ := interior_of_mem_lexWindow hl
    have hread : attributesFrom attributes.start w.length (w ++ behind) = .error e := by
      have hfails : attributesIn text attributes = .error e := h
      rwa [attributesIn, hw, hstop, Nat.add_sub_cancel_left] at hfails
    have hlist := attributesFrom_read attributes.start w behind
    rw [hread] at hlist
    exact attributesFrom_visible w hread hw (hlist.not_isUnclosed hi)

/-- The nesting of lexemes is broken by closing tags only. -/
theorem nestAll_error_kind {stack : List Opened} {ls : List Lexeme} {e : Failure} (h : nestAll stack ls = .error e) :
    ∃ f, e = .fault f ∧ f.cause.kind = .unmatchedClosingTag := by
  induction ls generalizing stack with
  | nil => cases h
  | cons l ls ih =>
    rw [nestAll] at h
    cases hstep : nestStep stack l with
    | ok next =>
      rw [hstep] at h
      exact ih h
    | error e' =>
      rw [hstep] at h
      obtain rfl : e' = e := Except.error.inj h
      cases l with
      | character c => cases hstep
      | opening name attributes extent selfClosing => cases hstep
      | closing name extent =>
        cases stack with
        | nil =>
          obtain rfl := Except.error.inj hstep
          exact ⟨_, rfl, rfl⟩
        | cons innermost outer =>
          dsimp only [nestStep] at hstep
          split at hstep
          · cases hstep
          · obtain rfl := Except.error.inj hstep
            exact ⟨_, rfl, rfl⟩

/-- What stops the cut of a text. Faults of tags are shown at the `<` of the tag; a malformed attribute can only be what
ended the lexemes. -/
theorem scanText_failure_visible {text : Text} {e : Failure} (h : (scanText text).failure = some e) :
    e.Visible text := by
  obtain ⟨f, rfl, hplaced⟩ := scanText_failure_wellPlaced h
  by_cases hk : f.cause.kind = .malformedAttribute
  · rw [scanText, scanWindow_failure, Lexing.firstFailure, ← lexText] at h
    split at h
    · next e' hnest =>
      obtain rfl := Option.some.inj h
      obtain ⟨f', hf, hkind⟩ := nestAll_error_kind hnest
      obtain rfl := Failure.fault.inj hf
      rw [hkind] at hk
      cases hk
    · next stack hnest =>
      split at h
      · next e' hfailure =>
        obtain rfl := Option.some.inj h
        exact lexText_failure_visible hfailure
      · cases stack with
        | nil => cases h
        | cons o outer =>
          obtain rfl := Failure.fault.inj (Option.some.inj h)
          cases hk
  · exact ⟨f, '<', rfl, hplaced.at_mark hk, by decide⟩

/-- Whatever an expansion is refused for, it is shown at a character that is not a blank. -/
theorem expand_error_visible {options : Options} {text : Text} {e : Failure} (h : expand options text = .error e) :
    e.Visible text := by
  rcases expandBody_error (expandBody_of_expandDocument_error h) with hscan | ⟨l, hl, hfails⟩
  · exact scanText_failure_visible hscan
  · exact hfails.visible hl

end ComponentTags
