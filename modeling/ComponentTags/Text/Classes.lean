/-!
# Template text and its character classes

Text is a list of code points, so every offset, length and column of the library counts code points. The
classes below are those of the tag language: they know ASCII only, and no other character opens, continues or
ends a tag or an attribute. The white space of parameter declarations is wider and is kept apart.
-/

namespace ComponentTags

/-- Template text, one entry per code point. -/
abbrev Text := List Char

/-- Blanks separate attributes and may stand before the end of a tag. -/
def isBlank (c : Char) : Bool :=
  c == ' ' || c == '\t' || c == '\r' || c == '\n' || c == '\x0c' || c == '\x0b'

/-- The two marks that open and close quoted values. -/
def isQuote (c : Char) : Bool := c == '\x22' || c == '\x27'

/-- The bracket that closes an opening bracket, and nothing for other characters. -/
def closerOf? (c : Char) : Option Char :=
  if c == '(' then some ')'
  else if c == '[' then some ']'
  else if c == '\x7b' then some '\x7d'
  else none

/-- The three closing brackets. -/
def isCloser (c : Char) : Bool := c == ')' || c == ']' || c == '\x7d'

/-- Component names begin with an ASCII capital, which tells them from the tags of the page itself. -/
def isTagStart (c : Char) : Bool := c.isUpper

/-- Component names go on with ASCII letters and digits. -/
def isTagChar (c : Char) : Bool := c.isAlphanum

/-- Attribute names begin with an ASCII letter or an underscore. -/
def isNameStart (c : Char) : Bool := c == '_' || c.isAlpha

/-- Attribute names go on with ASCII letters, digits and underscores. -/
def isNameChar (c : Char) : Bool := c == '_' || c.isAlphanum

/-- The component name at the front of a text, empty if none stands there. -/
def tagName : Text → Text
  | [] => []
  | c :: rest => if isTagStart c then c :: rest.takeWhile isTagChar else []

end ComponentTags
