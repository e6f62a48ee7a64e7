import ComponentTags.Text.Classes

/-!
# Lines of a text as a reader sees them

A report quotes one line of the template. For that purpose a line ends at any line break of the Unicode
standard, and a carriage return with a line feed is one break. Positions use line feeds alone; the two notions
agree on texts whose only line breaks are line feeds, alone or after a carriage return.
-/

namespace ComponentTags

/-- The characters that end a line. -/
def isLineBreak (c : Char) : Bool :=
  c == '\n' || c == '\r' || c == '\x0b' || c == '\x0c' || c == '\x1c' || c == '\x1d' || c == '\x1e' ||
    c == '\x85' || c == '\u2028' || c == '\u2029'

/-- The lines of a text, each with the break that ends it; their concatenation is the text. -/
def linesOf : Text → List Text
  | [] => []
  | '\r' :: '\n' :: rest => ['\r', '\n'] :: linesOf rest
  | c :: rest =>
    if isLineBreak c then [c] :: linesOf rest
    else match linesOf rest with
      | [] => [[c]]
      | line :: lines => (c :: line) :: lines

theorem linesOf_pair (rest : Text) : linesOf ('\r' :: '\n' :: rest) = ['\r', '\n'] :: linesOf rest := rfl

/-- The lines of a text that does not begin with a carriage return and a line feed. -/
theorem linesOf_cons {c : Char} {rest : Text} (h : c = '\r' → rest.head? ≠ some '\n') :
    linesOf (c :: rest) =
      if isLineBreak c then [c] :: linesOf rest
      else match linesOf rest with
        | [] => [[c]]
        | line :: lines => (c :: line) :: lines := by
  rw [linesOf.eq_def]
  split
  · next hnil => cases hnil
  · next hpair =>
    obtain ⟨rfl, rfl⟩ := List.cons.inj hpair
    exact absurd rfl (h rfl)
  · next hcons =>
    obtain ⟨rfl, rfl⟩ := List.cons.inj hcons
    rfl

/-- The lines of a text make up the text. -/
theorem flatten_linesOf (text : Text) : (linesOf text).flatten = text := by
  fun_induction linesOf text with
  | case1 => rfl
  | case2 rest ih => simp [ih]
  | case3 c rest _ _ ih => simp [ih]
  | case4 c rest _ _ hnone ih =>
    rw [hnone] at ih
    simp [← ih]
  | case5 c rest _ _ line lines hlines ih =>
    rw [hlines] at ih
    simp [← ih]

/-- The text without the run of `c` at its end. -/
def trimEnd (c : Char) (text : Text) : Text := (text.reverse.dropWhile (· == c)).reverse

/-- The text with a line feed for each carriage return, alone or with the line feed behind it. -/
def unifyLineEnds : Text → Text
  | [] => []
  | '\r' :: '\n' :: rest => '\n' :: unifyLineEnds rest
  | c :: rest => (if c == '\r' then '\n' else c) :: unifyLineEnds rest

end ComponentTags
