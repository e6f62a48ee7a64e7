import ComponentTags.Text.Classes

/-!
# Positions in a text

An extent is a pair of offsets; a span is the same pair with line and column spelled out. Lines end at line
feeds only. Offsets past the end of the text count on along its last line. An offset before the text has line
zero, and its column is measured from the start of the last line.
-/

namespace ComponentTags

/-- A half-open stretch of a text, by offsets. -/
structure Extent where
  /-- Offset of the first character. -/
  start : Nat
  /-- Offset just past the last character. -/
  stop : Nat
  deriving DecidableEq, Repr

/-- The same stretch of a text that is set behind `offset` other characters. -/
def Extent.shift (offset : Nat) (e : Extent) : Extent := ⟨offset + e.start, offset + e.stop⟩

/-- A place in a text: line and column count from one, the offset from zero. -/
structure Position where
  /-- Number of the line. -/
  line : Int
  /-- Number of the character within the line. -/
  column : Int
  /-- Number of characters before the place. -/
  offset : Int
  deriving DecidableEq, Repr

/-- A stretch of a text with both its ends as positions. -/
structure Span where
  /-- Position of the first character. -/
  start : Position
  /-- Position just past the last character. -/
  stop : Position
  deriving DecidableEq, Repr

/-- The offsets just past the line feeds of a text whose first character has the offset `offset`. -/
def startsAfterFeeds (offset : Nat) : Text → List Nat
  | [] => []
  | c :: rest =>
    if c == '\n' then (offset + 1) :: startsAfterFeeds (offset + 1) rest
    else startsAfterFeeds (offset + 1) rest

/-- The offsets at which the lines of a text start, in increasing order. -/
structure LineIndex where
  /-- One offset per line; the first line starts at zero. -/
  starts : Array Nat

/-- The line starts of a text. -/
def LineIndex.ofText (text : Text) : LineIndex := ⟨(0 :: startsAfterFeeds 0 text).toArray⟩

/-- How many lines start at or before the offset, if that number lies between `lo` and `hi`: the interval is
halved until it is a point. -/
def LineIndex.linesUpTo (index : LineIndex) (offset : Int) (lo hi : Nat) : Nat :=
  if lo < hi then
    let mid := (lo + hi) / 2
    if offset < (index.starts.getD mid 0 : Nat) then index.linesUpTo offset lo mid
    else index.linesUpTo offset (mid + 1) hi
  else lo
termination_by hi - lo

/-- The offset from which the columns of a line are counted; line zero borrows that of the last line. -/
def LineIndex.lineStart (index : LineIndex) (line : Nat) : Nat :=
  if line = 0 then index.starts.getD (index.starts.size - 1) 0 else index.starts.getD (line - 1) 0

/-- Line and column of an offset. -/
def LineIndex.position (index : LineIndex) (offset : Int) : Position :=
  let line := index.linesUpTo offset 0 index.starts.size
  ⟨line, offset - index.lineStart line + 1, offset⟩

/-- Both ends of a stretch as positions. -/
def LineIndex.spanOf (index : LineIndex) (start stop : Int) : Span :=
  ⟨index.position start, index.position stop⟩

/-- The span of an extent. -/
def LineIndex.span (index : LineIndex) (e : Extent) : Span := index.spanOf e.start e.stop

end ComponentTags
