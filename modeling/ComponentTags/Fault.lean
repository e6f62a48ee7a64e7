import ComponentTags.Position
import ComponentTags.Text.Quoted

/-!
# What can be wrong with a template

A fault has a cause and the extent of the text it is about. The cause decides both the kind of the fault and
the words of its message. Reading a place that a window has but the text has not is a failure of
another sort: it has no extent and no message, and it cannot happen in a window that lies within its text.
-/

namespace ComponentTags

/-- The classes under which faults are reported. -/
inductive Kind where
  /-- A fault of no particular class. -/
  | general
  /-- An opening tag that does not reach its end, or is never closed. -/
  | unterminatedTag
  /-- An attribute list that is not made of attributes. -/
  | malformedAttribute
  /-- A closing tag without its opening tag. -/
  | unmatchedClosingTag
  deriving DecidableEq, Repr

/-- The name of a class in reports and diagnostics. -/
def Kind.label : Kind → Text
  | general => "transpile error".toList
  | unterminatedTag => "unterminated-tag".toList
  | malformedAttribute => "malformed-attribute".toList
  | unmatchedClosingTag => "unmatched-closing-tag".toList

/-- Why a template is refused. -/
inductive Cause where
  /-- The opening tag of a component runs into the end of the window. -/
  | tagNotEnded (name : Text)
  /-- No closing tag is left for an open component. -/
  | neverClosed (name : Text)
  /-- A closing tag stands where no component is open. -/
  | closesNothing (name : Text)
  /-- A closing tag names another component than the innermost open one. -/
  | closesOther (name innermost : Text)
  /-- A quoted value is not closed. -/
  | openQuote
  /-- A bracket is not closed before the end of the tag is searched in vain. -/
  | openBracket (closer : Char)
  /-- An attribute list goes on with a character that starts no name. -/
  | notAName (found : Char)
  /-- An attribute name touches a character that cannot follow it. -/
  | afterName (found : Char) (name : Text)
  /-- A quoted value touches a character that cannot follow it. -/
  | afterValue (found : Char) (name : Text)
  /-- Nothing stands behind the equals sign. -/
  | missingValue (name : Text)
  /-- A closing bracket in a value does not match. -/
  | unbalanced (found : Char) (name : Text)
  /-- A bracket opened in a value is not closed. -/
  | missingCloser (closer : Char) (name : Text)
  deriving DecidableEq, Repr

/-- The class of a cause. -/
def Cause.kind : Cause → Kind
  | tagNotEnded _ | neverClosed _ => .unterminatedTag
  | closesNothing _ | closesOther _ _ => .unmatchedClosingTag
  | openQuote | openBracket _ | notAName _ | afterName _ _ | afterValue _ _ | missingValue _
  | unbalanced _ _ | missingCloser _ _ => .malformedAttribute

/-- The words between apostrophes, as messages name an attribute. -/
def attributeWords (name : Text) : Text := "attribute '".toList ++ name ++ "'".toList

/-- The message of a cause. -/
def Cause.message : Cause → Text
  | tagNotEnded name => "unterminated tag <".toList ++ name
  | neverClosed name => "tag <".toList ++ name ++ "> is never closed".toList
  | closesNothing name => "closing tag </".toList ++ name ++ "> has no matching open tag".toList
  | closesOther name innermost =>
    "closing tag </".toList ++ name ++ "> does not match open tag <".toList ++ innermost ++ ">".toList
  | openQuote => "unterminated quoted value".toList
  | openBracket closer => "missing ".toList ++ quoted [closer] ++ " in attribute list".toList
  | notAName found => "unexpected character ".toList ++ quoted [found] ++ " in attribute list".toList
  | afterName found name =>
    "unexpected character ".toList ++ quoted [found] ++ " after ".toList ++ attributeWords name
  | afterValue found name =>
    "unexpected character ".toList ++ quoted [found] ++ " after value of ".toList ++ attributeWords name
  | missingValue name => "missing value for ".toList ++ attributeWords name
  | unbalanced found name =>
    "unbalanced ".toList ++ quoted [found] ++ " in value of ".toList ++ attributeWords name
  | missingCloser closer name =>
    "missing ".toList ++ quoted [closer] ++ " in value of ".toList ++ attributeWords name

/-- A cause, and the stretch of text that shows it. -/
structure Fault where
  /-- What is wrong. -/
  cause : Cause
  /-- Where it is wrong. -/
  extent : Extent
  deriving DecidableEq, Repr

/-- The outcomes other than success. -/
inductive Failure where
  /-- The template is refused. -/
  | fault (f : Fault)
  /-- A place of the window was read that lies past the end of the text. -/
  | outOfText
  deriving DecidableEq, Repr

/-- A fault as a failure. -/
def Failure.because (cause : Cause) (start stop : Nat) : Failure := .fault ⟨cause, ⟨start, stop⟩⟩

/-- The same failure in a text that is set behind `offset` other characters. -/
def Failure.shift (offset : Nat) : Failure → Failure
  | fault f => fault ⟨f.cause, f.extent.shift offset⟩
  | outOfText => outOfText

end ComponentTags
