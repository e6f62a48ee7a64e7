import ComponentTags.CommandLine.UsageError
import ComponentTags.Text.Digit

/-!
# Arguments by their form

Every argument is sorted by its form before any is acted upon. A long flag may be abbreviated as long as one flag
alone fits. Several short flags may share an argument; what is wrong in it counts only when its turn comes. Behind
the first `--` all arguments are operands, whatever they look like.

The rules are those of argparse 3.11 in its releases before 3.11.10. A separator that is attached to a flag is taken
away there, so that the flag has no text for its value, and letters behind `-h` that are no flags are refused as a value
that it does not take. The releases from 3.11.10 and 3.12.3 on keep the separator as the value, and give help at once.
-/

namespace ComponentTags.CommandLine

/-- The value given to a flag. -/
inductive Given where
  /-- A text. -/
  | text (t : Text)
  /-- Nothing, where a separator was attached to the flag: it is taken away, and no text is left. -/
  | nothing
  deriving DecidableEq, Repr

/-- The value that an attached text gives. -/
def Given.ofAttached (t : Text) : Given := if t == ['-', '-'] then .nothing else .text t

/-- A flag, and its value if it takes one. -/
structure Use where
  /-- The flag. -/
  flag : Flag
  /-- Its value, of no account for a flag that takes none. -/
  value : Given := .nothing

/-- The flags that one argument gives. -/
structure Bundle where
  /-- The flags that are complete. -/
  uses : List Use := []
  /-- The last flag, if its value is the next argument. -/
  wanting : Option Flag := none

/-- A flag with nothing attached. -/
def Bundle.alone (flag : Flag) : Bundle :=
  if flag.takesValue then { wanting := some flag } else { uses := [{ flag := flag }] }

/-- A flag with a value attached. -/
def Bundle.attached (flag : Flag) (value : Text) : Except UsageError Bundle :=
  if flag.takesValue then .ok { uses := [⟨flag, Given.ofAttached value⟩] }
  else .error (.valueIgnored flag value)

/-- A short flag and what follows it: its value, or the letters of more short flags. Letters that are no flags count
as a value that the flag before them does not take. -/
def Bundle.ofLetters (flag : Flag) : Text → Except UsageError Bundle
  | [] => .ok (Bundle.alone flag)
  | c :: tail =>
    match if flag.takesValue then none else Flag.ofLetter? c with
    | none => Bundle.attached flag (c :: tail)
    | some next => do
      let bundle ← Bundle.ofLetters next tail
      return { bundle with uses := { flag := flag } :: bundle.uses }

/-- A short flag and what follows its letter. An equals sign right behind the first letter is dropped, and something
has to be attached with it, if only an empty value. -/
def Bundle.ofShort (flag : Flag) : Text → Except UsageError Bundle
  | ['='] => Bundle.attached flag []
  | '=' :: tail => Bundle.ofLetters flag tail
  | tail => Bundle.ofLetters flag tail

/-- A long flag and what is attached to it. -/
def Bundle.ofLong (flag : Flag) : Option Text → Except UsageError Bundle
  | some value => Bundle.attached flag value
  | none => .ok (Bundle.alone flag)

/-- An argument by its form. -/
inductive Word where
  /-- The name of a template, or a value of the flag before it. -/
  | operand (text : Text)
  /-- The mark behind which all arguments are operands. -/
  | separator
  /-- Flags, or what is wrong with them. -/
  | flags (bundle : Except UsageError Bundle)
  /-- An argument that looks like a flag and is none. -/
  | unknown (text : Text)

/-- The text begins with at least one digit and has only digits; a line feed may stand behind them. -/
def isDigitsToEnd (text : Text) : Bool :=
  match text with
  | [] => false
  | c :: rest =>
    isDecimalDigit c && (rest.dropWhile isDecimalDigit == [] || rest.dropWhile isDecimalDigit == ['\n'])

/-- A minus sign has a whole or decimal number behind it; such arguments are operands. -/
def isNegativeNumber (text : Text) : Bool :=
  match text with
  | '-' :: number =>
    isDigitsToEnd number ||
      match number.dropWhile isDecimalDigit with
      | '.' :: fraction => isDigitsToEnd fraction
      | _ => false
  | _ => false

/-- An argument that spells no flag: numbers and texts with a space are operands nevertheless. -/
def Word.ofOther (text : Text) : Word :=
  if isNegativeNumber text || text.contains ' ' then .operand text else .unknown text

/-- What follows the equals sign of an argument. -/
def attachedTo (text : Text) : Option Text :=
  match text.dropWhile (· != '=') with
  | [] => none
  | _ :: value => some value

/-- The form of an argument before the separator. -/
def Word.ofText (text : Text) : Except UsageError Word :=
  match text with
  | '-' :: '-' :: _ =>
    match Flag.meantBy (text.takeWhile (· != '=')) with
    | [] => .ok (.ofOther text)
    | [flag] => .ok (.flags (Bundle.ofLong flag (attachedTo text)))
    | candidates => .error (.ambiguous text candidates)
  | '-' :: c :: tail =>
    match Flag.ofLetter? c with
    | some flag => .ok (.flags (Bundle.ofShort flag tail))
    | none => .ok (.ofOther text)
  | _ => .ok (.operand text)

/-- The forms of all arguments; the first ambiguous one is an error. -/
def Word.ofTexts : List Text → Except UsageError (List Word)
  | [] => .ok []
  | text :: texts =>
    if text == ['-', '-'] then .ok (.separator :: texts.map .operand)
    else match Word.ofText text with
      | .error e => .error e
      | .ok word =>
        match Word.ofTexts texts with
        | .error e => .error e
        | .ok words => .ok (word :: words)

end ComponentTags.CommandLine
