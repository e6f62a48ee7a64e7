import ComponentTags.Fault

/-!
# Reading within a window

A window is a stretch of a template that is looked at by itself. Its functions are given the text from a place on,
up to the end of the template, and the number `left` of places that the window still has there. They stop where
`left` runs out. A window may have more places than the text; such a place cannot be read, and an attempt
to do so fails.
-/

namespace ComponentTags

/-- How many characters of a class stand at the front of what is left of a window. -/
def runLength (p : Char → Bool) : Nat → Text → Except Failure Nat
  | 0, _ => .ok 0
  | _ + 1, [] => .error .outOfText
  | left + 1, c :: rest =>
    if p c then
      match runLength p left rest with
      | .ok n => .ok (n + 1)
      | .error e => .error e
    else .ok 0

/-- How the search for the end of a quoted text came out. -/
inductive QuoteEnd where
  /-- The closing quote was found; so many characters were read, itself included. -/
  | closed (size : Nat)
  /-- The window ended first. -/
  | unclosed
  /-- The text ended within the window. -/
  | outOfText
  deriving DecidableEq, Repr

/-- The same outcome when `n` characters more were read in front. -/
def QuoteEnd.skip (n : Nat) : QuoteEnd → QuoteEnd
  | closed size => closed (size + n)
  | unclosed => unclosed
  | outOfText => outOfText

/-- Read on behind an opening quote to the quote that closes it. A backslash hides the place behind it, even where that
lies past the end of the window or of the text. -/
def quoteEnd (quote : Char) : Nat → Text → QuoteEnd
  | 0, _ => .unclosed
  | _ + 1, [] => .outOfText
  | left + 1, c :: rest =>
    if c == '\\' then (quoteEnd quote (left - 1) (rest.drop 1)).skip 2
    else if c == quote then .closed 1
    else (quoteEnd quote left rest).skip 1
termination_by left => left
decreasing_by all_goals omega

end ComponentTags
