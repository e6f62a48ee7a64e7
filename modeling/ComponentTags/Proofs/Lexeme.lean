import ComponentTags.Proofs.MarkWindow

/-!
# Lexemes: a template read once from left to right

The flat view of a template knows nothing of nesting: at each `<` a mark is taken if one stands there, and all other
characters are text. It goes on behind each mark, and it ends at the first opening tag that is at fault. The cut
into segments and the expansion are compared with this view.

The main statement is that a shorter window that ends where a closing tag begins has the lexemes of the longer window
up to there.
-/

namespace ComponentTags

/-- A tag of a component, or a character of other text. -/
inductive Lexeme where
  /-- A character that belongs to no tag. -/
  | character (c : Char)
  /-- An opening tag, with the extents of its attribute list and of the whole tag. -/
  | opening (name : Text) (attributes extent : Extent) (selfClosing : Bool)
  /-- A closing tag. -/
  | closing (name : Text) (extent : Extent)
  deriving DecidableEq, Repr

/-- The lexeme of a mark that stands at `offset`. -/
def Lexeme.ofMark (offset : Nat) : Mark → Lexeme
  | .opening m => .opening m.name ⟨offset + m.attributesStart, offset + m.attributesStop⟩
      ⟨offset, offset + m.size⟩ m.selfClosing
  | .closing m => .closing m.name ⟨offset, offset + m.size⟩

/-- The lexemes of a window, and the fault that ended it early. -/
structure Lexing where
  /-- The lexemes in the order of the text. -/
  lexemes : List Lexeme
  /-- The fault of the opening tag behind the last lexeme, if any. -/
  failure : Option Failure
  deriving DecidableEq, Repr

/-- More lexemes in front. -/
def Lexing.prepend (front : List Lexeme) (l : Lexing) : Lexing := ⟨front ++ l.lexemes, l.failure⟩

@[simp] theorem Lexing.lexemes_prepend (front : List Lexeme) (l : Lexing) :
    (l.prepend front).lexemes = front ++ l.lexemes := rfl

@[simp] theorem Lexing.failure_prepend (front : List Lexeme) (l : Lexing) :
    (l.prepend front).failure = l.failure := rfl

/-- Lexemes can be put in front in two parts. -/
@[simp] theorem Lexing.prepend_prepend (front middle : List Lexeme) (l : Lexing) :
    (l.prepend middle).prepend front = l.prepend (front ++ middle) := by
  simp [prepend]

@[simp] theorem Lexing.prepend_nil (l : Lexing) : l.prepend [] = l := rfl

/-- The lexemes of what is left of a window at `offset`. -/
def lexFrom (offset : Nat) : Nat → Text → Lexing
  | 0, _ | _ + 1, [] => ⟨[], none⟩
  | left + 1, c :: rest =>
    if c == '<' then
      match markAt? left rest with
      | .error e => ⟨[], some (e.shift offset)⟩
      | .ok none => (lexFrom (offset + 1) left rest).prepend [.character c]
      | .ok (some m) =>
        (lexFrom (offset + m.size) (left - (m.size - 1)) (rest.drop (m.size - 1))).prepend [.ofMark offset m]
    else (lexFrom (offset + 1) left rest).prepend [.character c]
termination_by left => left
decreasing_by all_goals omega

/-- The lexemes of the window of a text. -/
def lexWindow (text : Text) (window : Extent) : Lexing :=
  lexFrom window.start (window.stop - window.start) (text.drop window.start)

/-- The lexemes of a whole text. -/
def lexText (text : Text) : Lexing := lexWindow text ⟨0, text.length⟩

/-- A character other than `<` is text. -/
theorem lexFrom_text {c : Char} (hc : c ≠ '<') (offset left : Nat) (rest : Text) :
    lexFrom offset (left + 1) (c :: rest) =
      (lexFrom (offset + 1) left rest).prepend [.character c] := by
  rw [lexFrom]
  simp [hc]

/-- A `<` that begins no mark is text. -/
theorem lexFrom_plain {left : Nat} {rest : Text} (h : markAt? left rest = .ok none) (offset : Nat) :
    lexFrom offset (left + 1) ('<' :: rest) =
      (lexFrom (offset + 1) left rest).prepend [.character '<'] := by
  rw [lexFrom]
  simp [h]

/-- A mark is one lexeme, and reading goes on at its end. -/
theorem lexFrom_mark {left : Nat} {rest : Text} {m : Mark} (h : markAt? left rest = .ok (some m))
    (offset : Nat) :
    lexFrom offset (left + 1) ('<' :: rest) =
      (lexFrom (offset + m.size) (left - (m.size - 1)) (rest.drop (m.size - 1))).prepend
        [.ofMark offset m] := by
  rw [lexFrom]
  simp [h]

/-- The case of a mark whose characters are known. -/
theorem lexFrom_mark_append {left : Nat} {body rest : Text} {m : Mark}
    (h : markAt? left (body ++ rest) = .ok (some m)) (hs : m.size = body.length + 1) (offset : Nat) :
    lexFrom offset (left + 1) ('<' :: (body ++ rest)) =
      (lexFrom (offset + m.size) (left + 1 - m.size) rest).prepend [.ofMark offset m] := by
  rw [lexFrom_mark h, show left + 1 - m.size = left - (m.size - 1) by omega,
    show m.size - 1 = body.length by omega, List.drop_left]

/-- The window that is cut off at `stop` has the lexemes `front`, and no fault. -/
def ShrinksTo (offset left : Nat) (text : Text) (stop : Nat) (front : List Lexeme) : Prop :=
  offset ≤ stop ∧ stop < offset + left ∧ lexFrom offset (stop - offset) text = ⟨front, none⟩

/-- One lexeme more in front, if the shorter window reads it too. -/
theorem ShrinksTo.step {offset left size stop : Nat} {c : Char} {rest : Text} {front : List Lexeme} {x : Lexeme}
    (h : ShrinksTo (offset + size) (left - (size - 1)) (rest.drop (size - 1)) stop front) (hs : 0 < size)
    (hx : ∀ less, size ≤ less + 1 → less ≤ left → lexFrom offset (less + 1) (c :: rest) =
      (lexFrom (offset + size) (less - (size - 1)) (rest.drop (size - 1))).prepend [x]) :
    ShrinksTo offset (left + 1) (c :: rest) stop (x :: front) := by
  obtain ⟨hlo, hhi, hi⟩ := h
  have hk : stop - offset = stop - (offset + 1) + 1 := by omega
  have hj : stop - (offset + 1) - (size - 1) = stop - (offset + size) := by omega
  refine ⟨by omega, by omega, ?_⟩
  rw [hk, hx _ (by omega) (by omega), hj, hi]
  rfl

/-- A window that is cut off where a closing tag begins has the lexemes before that tag, and no fault. The
induction is on the longer window; the shorter one recognises the same mark at each step, because the marks
before the closing tag end before it. -/
theorem lexFrom_shrink {offset left : Nat} {text name : Text} {front back : List Lexeme} {e : Extent}
    (h : (lexFrom offset left text).lexemes = front ++ .closing name e :: back) :
    ShrinksTo offset left text e.start front := by
  fun_induction lexFrom offset left text generalizing front with
  | case1 => simp at h
  | case2 => simp at h
  | case3 => simp at h
  | case4 offset left c rest hc hm ih =>
    obtain rfl : c = '<' := by simpa using hc
    cases front with
    | nil => simp at h
    | cons x front =>
      simp only [Lexing.lexemes_prepend, List.cons_append, List.nil_append, List.cons.injEq] at h
      obtain ⟨rfl, h⟩ := h
      exact (ih h).step Nat.one_pos fun less _ hless => lexFrom_plain (markAt?_eq_none hm hless) offset
  | case5 offset left c rest hc m hm ih =>
    obtain rfl : c = '<' := by simpa using hc
    obtain ⟨body, behind, rfl, hs, hl, hw⟩ := markAt?_eq_some hm
    cases front with
    | nil =>
      have he : Lexeme.ofMark offset m = .closing name e := (List.cons.inj h).1
      have hstart : e.start = offset := by
        cases m with
        | opening m => simp [Lexeme.ofMark] at he
        | closing m =>
          simp only [Lexeme.ofMark, Lexeme.closing.injEq] at he
          rw [← he.2]
      refine ⟨by omega, by omega, ?_⟩
      rw [hstart, Nat.sub_self]
      simp [lexFrom]
    | cons x front =>
      simp only [Lexing.lexemes_prepend, List.cons_append, List.nil_append, List.cons.injEq] at h
      obtain ⟨rfl, h⟩ := h
      exact (ih h).step (by omega) fun less hsize _ => lexFrom_mark (hw less behind (by omega)) offset
  | case6 offset left c rest hc ih =>
    cases front with
    | nil => simp at h
    | cons x front =>
      simp only [Lexing.lexemes_prepend, List.cons_append, List.nil_append, List.cons.injEq] at h
      obtain ⟨rfl, h⟩ := h
      exact (ih h).step Nat.one_pos fun less _ _ => lexFrom_text (by simpa using hc) offset less rest

/-- A text goes on behind one of its places as what follows that place goes on. -/
theorem drop_behind {whole rest : Text} {c : Char} {offset size : Nat} (h : whole.drop offset = c :: rest)
    (hs : 0 < size) : whole.drop (offset + size) = rest.drop (size - 1) := by
  obtain ⟨n, rfl⟩ : ∃ n, size = n + 1 := ⟨size - 1, by omega⟩
  rw [← List.drop_drop, h]
  simp

/-- The tags among the lexemes are the marks of the text, and they lie in the window. -/
theorem mem_lexFrom {whole text : Text} {offset left : Nat} {l : Lexeme} (hw : whole.drop offset = text)
    (h : l ∈ (lexFrom offset left text).lexemes) :
    (∃ c, l = .character c) ∨ ∃ start less rest m, whole.drop start = '<' :: rest ∧
      markAt? less rest = .ok (some m) ∧ start + m.size ≤ offset + left ∧ l = .ofMark start m := by
  fun_induction lexFrom offset left text with
  | case1 => simp at h
  | case2 => simp at h
  | case3 => simp at h
  | case4 offset left c rest hc hm ih =>
    rcases List.mem_cons.mp h with rfl | h
    · exact .inl ⟨c, rfl⟩
    · rcases ih (drop_behind hw Nat.one_pos) h with hi | ⟨start, less, behind, m, hstart, hm, hle, rfl⟩
      · exact .inl hi
      · exact .inr ⟨start, less, behind, m, hstart, hm, by omega, rfl⟩
  | case5 offset left c rest hc m hm ih =>
    obtain rfl : c = '<' := by simpa using hc
    obtain ⟨body, behind, rfl, hs, hl, -⟩ := markAt?_eq_some hm
    rcases List.mem_cons.mp h with rfl | h
    · exact .inr ⟨offset, left, body ++ behind, m, hw, hm, by omega, rfl⟩
    · rcases ih (drop_behind hw (by omega)) h with hi | ⟨start, less, behind, m', hstart, hm', hle, rfl⟩
      · exact .inl hi
      · exact .inr ⟨start, less, behind, m', hstart, hm', by omega, rfl⟩
  | case6 offset left c rest hc ih =>
    rcases List.mem_cons.mp h with rfl | h
    · exact .inl ⟨c, rfl⟩
    · rcases ih (drop_behind hw Nat.one_pos) h with hi | ⟨start, less, behind, m, hstart, hm, hle, rfl⟩
      · exact .inl hi
      · exact .inr ⟨start, less, behind, m, hstart, hm, by omega, rfl⟩

/-- A tag stands in the text, from its `<` up to `stop` at most. In an opening tag there is a name, and the attribute
list follows it and ends before the tag does. -/
def Lexeme.Within (text : Text) (stop : Nat) : Lexeme → Prop
  | .character _ => True
  | .opening name attributes extent _ =>
    text[extent.start]? = some '<' ∧ IsTagName name ∧ extent.start + name.length + 1 = attributes.start ∧
      attributes.start ≤ attributes.stop ∧ attributes.stop < extent.stop ∧ extent.stop ≤ stop
  | .closing _ extent => text[extent.start]? = some '<' ∧ extent.start < extent.stop ∧ extent.stop ≤ stop

/-- Each lexeme of a window lies within it, with the characters that the text has there. -/
theorem within_of_mem_lexFrom {whole text : Text} {offset left : Nat} {l : Lexeme} (hw : whole.drop offset = text)
    (h : l ∈ (lexFrom offset left text).lexemes) : l.Within whole (offset + left) := by
  rcases mem_lexFrom hw h with ⟨c, rfl⟩ | ⟨start, less, rest, m, hstart, hm, hle, rfl⟩
  · trivial
  · have hmark : whole[start]? = some '<' := by
      rw [← Nat.add_zero start, ← List.getElem?_drop, hstart]
      rfl
    cases m with
    | closing m =>
      obtain ⟨body, -, -, hs, -⟩ := markAt?_eq_some hm
      dsimp only [Mark.size] at hle hs
      exact ⟨hmark, by dsimp only; omega, hle⟩
    | opening m =>
      obtain ⟨-, -, -, hn, -, -, hlo, hhi, -⟩ := openingMark?_eq_some (markAt?_opening hm)
      refine ⟨hmark, hn, ?_, ?_, ?_, hle⟩
      · dsimp only [OpeningMark.attributesStart]
        omega
      · dsimp only [OpeningMark.attributesStart]
        omega
      · dsimp only
        omega

/-- Each lexeme of a text lies within it. -/
theorem within_of_mem_lexText {text : Text} {l : Lexeme} (h : l ∈ (lexText text).lexemes) :
    l.Within text text.length := by
  have hwithin := within_of_mem_lexFrom rfl h
  rwa [Nat.sub_zero, Nat.zero_add] at hwithin

/-- Within the text, reading is stopped only by the fault of an opening tag, at the `<` of that tag. -/
theorem lexFrom_failure {offset left : Nat} {text : Text} {e : Failure}
    (h : (lexFrom offset left text).failure = some e) (hl : left ≤ text.length) :
    ∃ front rest f, text = front ++ '<' :: rest ∧ front.length < left ∧
      openingMark? (left - front.length - 1) rest = .error (.fault f) ∧
      e = (Failure.fault f).shift (offset + front.length) := by
  fun_induction lexFrom offset left text with
  | case1 => simp at h
  | case2 => simp at h
  | case3 offset left c rest hc failure hm =>
    obtain rfl : c = '<' := by simpa using hc
    obtain rfl : failure.shift offset = e := by simpa using h
    obtain ⟨ho, f, rfl⟩ := markAt?_error hm (by simpa using hl)
    exact ⟨[], rest, f, rfl, by simp, by simpa using ho, rfl⟩
  | case4 offset left c rest hc hm ih =>
    obtain ⟨front, behind, f, rfl, hf, ho, rfl⟩ := ih h (by simpa using hl)
    refine ⟨c :: front, behind, f, rfl, by simp; omega, ?_, ?_⟩
    · rw [← ho]; simp
    · simp [Nat.add_assoc, Nat.add_comm 1]
  | case5 offset left c rest hc m hm ih =>
    obtain ⟨body, behind, rfl, hs, hm, -⟩ := markAt?_eq_some hm
    have hd : (body ++ behind).drop (m.size - 1) = behind := by simp [hs]
    rw [hd] at ih h
    simp only [List.length_cons, List.length_append] at hl
    obtain ⟨front, behind, f, rfl, hf, ho, rfl⟩ := ih h (by omega)
    refine ⟨c :: (body ++ front), behind, f, by simp, by simp; omega, ?_, ?_⟩
    · rw [← ho]
      congr 1
      simp only [List.length_cons, List.length_append]
      omega
    · congr 1
      simp only [List.length_cons, List.length_append]
      omega
  | case6 offset left c rest hc ih =>
    obtain ⟨front, behind, f, rfl, hf, ho, rfl⟩ := ih h (by simpa using hl)
    refine ⟨c :: front, behind, f, rfl, by simp; omega, ?_, ?_⟩
    · rw [← ho]; simp
    · simp [Nat.add_assoc, Nat.add_comm 1]

end ComponentTags
