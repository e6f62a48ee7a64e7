import ComponentTags.Text.Classes
import ComponentTags.Text.LetterCase

/-!
# Lower-casing a text

Every character is lowered by itself, with two exceptions. The dotted capital I becomes two characters. A capital
sigma becomes a final sigma where it ends a word: a cased character stands before it and none behind it, not
counting the characters that are ignored where case is looked for.
-/

namespace ComponentTags

/-- Whether a cased character comes next, past those that are ignored. -/
def casedNext (text : Text) : Bool := ((text.dropWhile isCaseIgnorable).take 1).any isCased

/-- The lower-case form of a capital sigma between the text before it, nearest character first, and the text
behind it. -/
def lowerSigma (before behind : Text) : Char :=
  if casedNext before && !casedNext behind then '\u03c2' else '\u03c3'

/-- The lower-case form of a text that stands behind the characters of `before`, nearest first. -/
def lowerAfter (before : Text) : Text → Text
  | [] => []
  | c :: rest =>
    let lowered :=
      if c == '\u03a3' then [lowerSigma before rest]
      else if c == '\u0130' then ['i', '\u0307']
      else [lowerChar c]
    lowered ++ lowerAfter (c :: before) rest

/-- The lower-case form of a text. -/
def lower (text : Text) : Text := lowerAfter [] text

end ComponentTags
