import ComponentTags.Proofs.Nesting

/-!
# Marks and lexemes in another context

A mark is decided by its own characters. That a `<` begins no mark depends on more: a name at the end of the text is
at fault, and a name that other characters follow is none. Some characters can neither go on with a name nor follow
one in a tag. In front of these, a `<` that begins no mark begins none, whatever stood there before. So a text that is
read without a fault is read in the same way in front of such a character, and behind any other text.
-/

namespace ComponentTags

/-- The character neither goes on with the name of a tag nor follows one in a tag. -/
def Divides (c : Char) : Prop := isTagChar c = false ∧ (isBlank c || c == '/' || c == '>') = false

/-- The `<` of a tag ends what is read before it. -/
theorem divides_mark : Divides '<' := by
  constructor <;> decide

theorem divides_brace : Divides '\x7b' := by
  constructor <;> decide

/-- A character that can begin a name can go on with one. -/
theorem isTagChar_of_isTagStart {c : Char} (h : isTagStart c = true) : isTagChar c = true := by
  have hupper : c.isUpper = true := h
  change ((c.isUpper || c.isLower) || c.isDigit) = true
  rw [hupper]
  rfl

/-- All characters of a name can go on with one. -/
theorem IsTagName.forall_isTagChar {name : Text} (h : IsTagName name) : ∀ c ∈ name, isTagChar c = true := by
  obtain ⟨initial, more, rfl, hi, hm⟩ := h
  exact List.forall_mem_cons.mpr ⟨isTagChar_of_isTagStart hi, hm⟩

/-- The name at the front of a text ends before a character that does not go on with it. -/
theorem tagName_append_left (front : Text) {rest : Text} (hr : ∀ c ∈ rest.head?, isTagChar c = false) :
    tagName (front ++ rest) = tagName front := by
  have hstop : rest.takeWhile isTagChar = [] := by
    cases rest with
    | nil => rfl
    | cons c rest => simp [hr c (by simp)]
  cases front with
  | nil =>
    cases rest with
    | nil => rfl
    | cons c rest =>
      have hstart : ¬isTagStart c = true := fun hc => by simp [isTagChar_of_isTagStart hc] at hr
      simp [tagName, hstart]
  | cons c front =>
    have hrun : (front ++ rest).takeWhile isTagChar = front.takeWhile isTagChar := by
      rw [List.takeWhile_append, hstop, List.append_nil]
      split
      · next hall => exact ((List.takeWhile_prefix _).eq_of_length hall).symm
      · rfl
    simp [tagName, hrun]

theorem length_tagName_le (text : Text) : (tagName text).length ≤ text.length := by
  cases hname : tagName text with
  | nil => exact Nat.zero_le _
  | cons initial more =>
    obtain ⟨-, behind, rfl⟩ := isTagName_of_tagName hname
    simp

section Context

variable {front rest behind : Text} {d : Char} {left other : Nat}

/-- Whatever stood behind it, in front of a dividing character a text begins no opening mark if it began none. -/
theorem openingMark?_context (h : openingMark? left (front ++ rest) = .ok none)
    (hr : ∀ c ∈ rest.head?, isTagChar c = false) (hd : Divides d) :
    openingMark? other (front ++ d :: behind) = .ok none := by
  obtain ⟨hchar, hfollows⟩ := hd
  have hle := length_tagName_le front
  rw [openingMark?_eq_none_iff, tagName_append_left front hr, List.drop_append_of_le_length hle] at h
  rw [openingMark?_eq_none_iff, tagName_append_left front (by simpa using hchar), List.drop_append_of_le_length hle]
  rcases h with h | ⟨c, following, hc, hnot⟩
  · exact .inl h
  · right
    cases hbehind : front.drop (tagName front).length with
    | nil => exact ⟨d, behind, rfl, hfollows⟩
    | cons e more =>
      rw [hbehind, List.cons_append] at hc
      obtain ⟨rfl, -⟩ := List.cons.inj hc
      exact ⟨e, more ++ d :: behind, rfl, hnot⟩

/-- No character of a closing mark is a dividing one. -/
theorem Divides.notMem_closing (hd : Divides d) {name blanks : Text} (hn : IsTagName name)
    (hb : ∀ c ∈ blanks, isBlank c = true) : d ∉ '/' :: (name ++ (blanks ++ ['>'])) := by
  obtain ⟨hchar, hfollows⟩ := hd
  simp only [Bool.or_eq_false_iff, beq_eq_false_iff_ne] at hfollows
  obtain ⟨⟨hblank, hslash⟩, hgt⟩ := hfollows
  intro hmem
  simp only [List.mem_cons, List.mem_append, List.not_mem_nil, or_false] at hmem
  rcases hmem with h | h | h | h
  · exact hslash h
  · simp [hn.forall_isTagChar d h] at hchar
  · simp [hb d h] at hblank
  · exact hgt h

/-- A closing mark cannot reach over a dividing character, so that it would have been found before. -/
theorem closingMark?_context (h : closingMark? left (front ++ rest) = .ok none) (hl : front.length ≤ left)
    (hd : Divides d) (ho : other ≤ (front ++ d :: behind).length) :
    closingMark? other (front ++ d :: behind) = .ok none := by
  obtain ⟨found, hfound⟩ := closingMark?_isOk ho
  cases found with
  | none => exact hfound
  | some m =>
    obtain ⟨blanks, following, htext, hn, hb, -, -⟩ := closingMark?_eq_some hfound
    have hnot := hd.notMem_closing hn hb
    have hsplit : front ++ d :: behind = '/' :: (m.name ++ (blanks ++ ['>'])) ++ following := by simpa using htext
    obtain ⟨more, hfront⟩ : ∃ more, front = '/' :: (m.name ++ (blanks ++ ['>'])) ++ more := by
      rcases List.append_eq_append_iff.mp hsplit with ⟨excess, hexcess, hrest⟩ | ⟨more, hmore, -⟩
      · cases excess with
        | nil => exact ⟨[], by simpa using hexcess.symm⟩
        | cons e excess =>
          obtain ⟨rfl, -⟩ := List.cons.inj hrest
          exact absurd (by simp [hexcess]) hnot
      · exact ⟨more, hmore⟩
    have hold := closingMark?_eq hn hb (more ++ rest) (show m.name.length + blanks.length + 2 ≤ left by
      rw [hfront] at hl
      simp only [List.length_cons, List.length_append, List.length_nil] at hl
      omega)
    rw [hfront] at h
    simp only [List.cons_append, List.append_assoc, List.nil_append] at h
    rw [hold] at h
    cases h

/-- Whatever stood behind it, in front of a dividing character a `<` begins no mark if it began none. -/
theorem markAt?_context (h : markAt? left (front ++ rest) = .ok none) (hl : front.length ≤ left)
    (hr : ∀ c ∈ rest.head?, isTagChar c = false) (hd : Divides d) (ho : other ≤ (front ++ d :: behind).length) :
    markAt? other (front ++ d :: behind) = .ok none := by
  unfold markAt? at h
  split at h
  · cases h
  · cases h
  · next hclosing =>
    split at h
    · cases h
    · cases h
    · next hopening =>
      rw [markAt?, closingMark?_context hclosing hl hd ho, openingMark?_context hopening hr hd]

end Context

/-- The lexemes of a text that is read to its end without a fault. -/
inductive Reading : Nat → Text → List Lexeme → Prop where
  /-- The end of the text. -/
  | nil {offset : Nat} : Reading offset [] []
  /-- A character that is text. A `<` is text if it begins no mark. -/
  | character {offset : Nat} {c : Char} {rest : Text} {ls : List Lexeme} :
      (c = '<' → markAt? rest.length rest = .ok none) → Reading (offset + 1) rest ls →
      Reading offset (c :: rest) (.character c :: ls)
  /-- A mark. -/
  | mark {offset : Nat} {body rest : Text} {m : Mark} {ls : List Lexeme} :
      markAt? (body ++ rest).length (body ++ rest) = .ok (some m) → m.size = body.length + 1 →
      Reading (offset + m.size) rest ls → Reading offset ('<' :: (body ++ rest)) (.ofMark offset m :: ls)

/-- The lexemes of a window that ends with its text, read without a fault. -/
theorem reading_of_lexFrom {offset left : Nat} {text : Text} (hl : left = text.length)
    (h : (lexFrom offset left text).failure = none) : Reading offset text (lexFrom offset left text).lexemes := by
  fun_induction lexFrom offset left text with
  | case1 offset text =>
    have hnil : text = [] := List.length_eq_zero_iff.mp hl.symm
    rw [hnil]
    exact .nil
  | case2 => simp at hl
  | case3 => cases h
  | case4 offset left c rest hc hm ih =>
    have hleft : left = rest.length := Nat.succ.inj hl
    rw [hleft] at hm
    exact .character (fun _ => hm) (ih hleft h)
  | case5 offset left c rest hc m hm ih =>
    have hmark : c = '<' := by simpa using hc
    have hleft : left = rest.length := Nat.succ.inj hl
    obtain ⟨body, behind, rfl, hs, -, -⟩ := markAt?_eq_some hm
    have hdrop : (body ++ behind).drop (m.size - 1) = behind := by simp [hs]
    have hrest : left - (m.size - 1) = behind.length := by
      rw [List.length_append] at hleft
      omega
    rw [hdrop] at ih h ⊢
    rw [hleft] at hm
    rw [hmark]
    exact .mark hm hs (ih hrest h)
  | case6 offset left c rest hc ih =>
    have hleft : left = rest.length := Nat.succ.inj hl
    exact .character (fun hmark => absurd hmark (by simpa using hc)) (ih hleft h)

/-- The lexemes of a text that is read without a fault. -/
theorem reading_of_lexText {text : Text} (h : (lexText text).failure = none) :
    Reading 0 text (lexText text).lexemes :=
  reading_of_lexFrom rfl h

/-- A text that is read without a fault is read in the same way in front of a dividing character, and reading goes on
behind it. -/
theorem Reading.lexFrom_append {offset : Nat} {front : Text} {ls : List Lexeme} (h : Reading offset front ls)
    {rest : Text} (hr : ∀ c ∈ rest.head?, Divides c) {left : Nat} (hlo : front.length ≤ left)
    (hhi : left ≤ (front ++ rest).length) :
    lexFrom offset left (front ++ rest) =
      (lexFrom (offset + front.length) (left - front.length) rest).prepend ls := by
  induction h generalizing left with
  | nil => simp
  | @character offset c front ls hplain _ ih =>
    rw [List.length_cons] at hlo
    obtain ⟨left, rfl⟩ : ∃ n, left = n + 1 := ⟨left - 1, by omega⟩
    rw [List.cons_append, List.length_cons] at hhi
    have hbehind := ih (by omega) (Nat.le_of_succ_le_succ hhi)
    have hstep : lexFrom offset (left + 1) (c :: (front ++ rest)) =
        (lexFrom (offset + 1) left (front ++ rest)).prepend [.character c] := by
      by_cases hc : c = '<'
      · have hnone := hplain hc
        have hmark : markAt? left (front ++ rest) = .ok none := by
          cases rest with
          | nil =>
            have hleft : left = front.length := by
              rw [List.append_nil] at hhi
              omega
            rw [hleft, List.append_nil]
            exact hnone
          | cons d behind =>
            rw [← List.append_nil front] at hnone
            exact markAt?_context hnone (by simp) (by simp) (hr d (by simp)) (by omega)
        rw [hc]
        exact lexFrom_plain hmark offset
      · exact lexFrom_text hc offset left (front ++ rest)
    rw [List.cons_append, hstep, hbehind, Lexing.prepend_prepend, List.length_cons]
    simp [Nat.add_assoc, Nat.add_comm 1]
  | @mark offset body front m ls hm hs _ ih =>
    obtain ⟨left, rfl⟩ : ∃ n, left = n + 1 := ⟨left - 1, by simp at hlo; omega⟩
    simp only [List.cons_append, List.length_cons, List.length_append] at hlo hhi
    have hbehind : lexFrom (offset + m.size) (left + 1 - m.size) (front ++ rest) =
        (lexFrom (offset + m.size + front.length) (left + 1 - m.size - front.length) rest).prepend ls :=
      ih (by omega) (by rw [List.length_append]; omega)
    have hstep : lexFrom offset (left + 1) ('<' :: (body ++ (front ++ rest))) =
        (lexFrom (offset + m.size) (left + 1 - m.size) (front ++ rest)).prepend [.ofMark offset m] := by
      obtain ⟨other, behind, hsplit, hother, -, hany⟩ := markAt?_eq_some hm
      have hbody : body = other := (List.append_inj hsplit (by omega)).1
      rw [← hbody] at hany
      exact lexFrom_mark_append (hany left (front ++ rest) (by omega)) hs offset
    rw [List.cons_append, List.append_assoc, hstep, hbehind, Lexing.prepend_prepend, List.length_cons,
      List.length_append]
    congr 2 <;> omega

/-- A text by itself. -/
theorem Reading.lexFrom_eq {offset : Nat} {text : Text} {ls : List Lexeme} (h : Reading offset text ls) :
    lexFrom offset text.length text = ⟨ls, none⟩ := by
  have hread : lexFrom offset text.length (text ++ []) =
      (lexFrom (offset + text.length) (text.length - text.length) []).prepend ls :=
    h.lexFrom_append (by simp) (Nat.le_refl _) (by simp)
  rw [List.append_nil, Nat.sub_self] at hread
  simpa [lexFrom, Lexing.prepend] using hread

/-- The same lexeme of a text that is set behind `n` other characters. -/
def Lexeme.shift (n : Nat) : Lexeme → Lexeme
  | .character c => .character c
  | .opening name attributes extent selfClosing => .opening name (attributes.shift n) (extent.shift n) selfClosing
  | .closing name extent => .closing name (extent.shift n)

/-- A tag that is read further on is the same tag, shifted. -/
theorem Lexeme.ofMark_shift (n offset : Nat) (m : Mark) : (ofMark offset m).shift n = ofMark (n + offset) m := by
  cases m <;> simp [ofMark, shift, Extent.shift, Nat.add_assoc]

/-- Behind other characters the same lexemes are read, each so many places further on. -/
theorem Reading.shift {offset : Nat} {text : Text} {ls : List Lexeme} (h : Reading offset text ls) (n : Nat) :
    Reading (n + offset) text (ls.map (·.shift n)) := by
  induction h with
  | nil => exact .nil
  | character hplain _ ih => exact .character hplain ih
  | mark hm hs _ ih =>
    rw [← Nat.add_assoc] at ih
    rw [List.map_cons, Lexeme.ofMark_shift]
    exact .mark hm hs ih

/-- Shifting changes no name, so it keeps the nesting. -/
theorem WellNested.shift {ls : List Lexeme} (h : WellNested ls) (n : Nat) : WellNested (ls.map (·.shift n)) := by
  induction h with
  | nil => exact .nil
  | character c _ ih => exact .character c ih
  | selfClosing name attributes extent _ ih => exact .selfClosing _ _ _ ih
  | pair name attributes extent closing _ _ ihi ihr =>
    rw [List.map_cons, List.map_append, List.map_cons]
    exact .pair _ _ _ _ ihi ihr

end ComponentTags
