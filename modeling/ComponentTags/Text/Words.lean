import ComponentTags.Text.Classes
import ComponentTags.Text.CodePoints

/-!
# Words and parts of a text

Words are divided by white space in the sense of Unicode, which is wider than the blanks of the tag language. Parts
are divided by one separating character and may be empty.
-/

namespace ComponentTags

/-- The ranges of the white space characters. -/
def spaceRanges : List (Nat × Nat) :=
  [(0x09, 0x0d), (0x1c, 0x20), (0x85, 0x85), (0xa0, 0xa0), (0x1680, 0x1680), (0x2000, 0x200a),
    (0x2028, 0x2029), (0x202f, 0x202f), (0x205f, 0x205f), (0x3000, 0x3000)]

/-- White space between words. -/
def isSpace (c : Char) : Bool := inRanges spaceRanges c

/-- The words of a text in order; none is empty. -/
def words (text : Text) : List Text :=
  match _h : text.dropWhile isSpace with
  | [] => []
  | c :: rest => (c :: rest.takeWhile (!isSpace ·)) :: words (rest.dropWhile (!isSpace ·))
termination_by text.length
decreasing_by
  have hrest := (List.dropWhile_sublist (!isSpace ·) (l := rest)).length_le
  have htext := (List.dropWhile_sublist isSpace (l := text)).length_le
  simp only [_h, List.length_cons] at htext
  omega

/-- The parts of a text between the separators, one more than there are separators. -/
def splitAtChar (separator : Char) : Text → List Text
  | [] => [[]]
  | c :: rest =>
    match splitAtChar separator rest with
    | [] => [[c]]
    | part :: parts => if c == separator then [] :: part :: parts else (c :: part) :: parts

/-- The parts put together with a separating text between them. -/
def joinWith (separator : Text) (parts : List Text) : Text := separator.intercalate parts

end ComponentTags
