import ComponentTags.Window

/-!
# Attributes

The attribute list of an opening tag holds names, which stand for the variable of that name, and names with a value.
Values are kept as written. A value is a quoted text, or a run of characters that ends at the first blank
outside quotes and brackets. Attributes are separated by blanks.
-/

namespace ComponentTags

/-- An attribute of a component. -/
inductive Attribute where
  /-- A name alone. -/
  | shorthand (name : Text)
  /-- A name with a value. -/
  | named (name value : Text)
  deriving DecidableEq, Repr

/-- Something and where it stands. -/
structure Placed (α : Type) where
  /-- What was found. -/
  item : α
  /-- The stretch of text it was found in. -/
  extent : Extent
  deriving DecidableEq, Repr

/-- The number of characters of a bare value of the attribute `name`, which goes on at `offset` while the brackets
that `expected` closes, the innermost first, are open. -/
def bareSize (name : Text) (expected : List Char) (offset : Nat) : Nat → Text → Except Failure Nat
  | 0, _ =>
    match expected with
    | [] => .ok 0
    | closer :: _ => .error (.because (.missingCloser closer name) (offset - 1) offset)
  | _ + 1, [] => .error .outOfText
  | left + 1, c :: rest =>
    if isBlank c && expected.isEmpty then .ok 0
    else if isQuote c then
      match quoteEnd c left rest with
      | .closed size => do
        let more ← bareSize name expected (offset + 1 + size) (left - size) (rest.drop size)
        return more + size + 1
      | .unclosed => .error (.because .openQuote offset (offset + 1))
      | .outOfText => .error .outOfText
    else match closerOf? c with
      | some closer => do
        let more ← bareSize name (closer :: expected) (offset + 1) left rest
        return more + 1
      | none =>
        if isCloser c then
          match expected with
          | [] => .error (.because (.unbalanced c name) offset (offset + 1))
          | closer :: outer =>
            if c == closer then do
              let more ← bareSize name outer (offset + 1) left rest
              return more + 1
            else .error (.because (.unbalanced c name) offset (offset + 1))
        else do
          let more ← bareSize name expected (offset + 1) left rest
          return more + 1
termination_by left => left
decreasing_by all_goals omega

/-- The number of characters of a quoted value of the attribute `name` whose opening quote stands at `offset`, just
before the text. The value must be followed by a blank or by the end of the window. -/
def quotedSize (name : Text) (quote : Char) (offset left : Nat) (text : Text) : Except Failure Nat :=
  match quoteEnd quote left text with
  | .closed size =>
    match left - size, text.drop size with
    | 0, _ => .ok (size + 1)
    | _ + 1, [] => .error .outOfText
    | _ + 1, c :: _ =>
      if isBlank c then .ok (size + 1)
      else .error (.because (.afterValue c name) (offset + size + 1) (offset + size + 2))
  | .unclosed => .error (.because .openQuote offset (offset + 1))
  | .outOfText => .error .outOfText

/-- The number of characters of the value of the attribute `name` that begins at `offset`; the attribute itself begins
at `start`. -/
def valueSize (name : Text) (start offset : Nat) : Nat → Text → Except Failure Nat
  | 0, _ => .error (.because (.missingValue name) start offset)
  | _ + 1, [] => .error .outOfText
  | left + 1, c :: rest =>
    if isQuote c then quotedSize name c offset left rest
    else bareSize name [] offset (left + 1) (c :: rest)

/-- The attribute whose first character `initial` stands at `offset`, just before the text, and the number of characters
it has behind that one. A name may be divided from its equals sign, and that from the value, by blanks. -/
def attributeAt (initial : Char) (offset left : Nat) (text : Text) :
    Except Failure (Attribute × Nat) := do
  if !isNameStart initial then
    throw (.because (.notAName initial) offset (offset + 1))
  let more ← runLength isNameChar left text
  let name := initial :: text.take more
  let leftBehind := left - more
  let behind := text.drop more
  let blanks ← runLength isBlank leftBehind behind
  match leftBehind - blanks, behind.drop blanks with
  | leftValue + 1, '=' :: rest =>
    let padding ← runLength isBlank leftValue rest
    let lead := more + blanks + 1 + padding
    let size ← valueSize name offset (offset + 1 + lead) (leftValue - padding) (rest.drop padding)
    return (.named name ((rest.drop padding).take size), lead + size)
  | _, _ =>
    match leftBehind, behind with
    | _ + 1, c :: _ =>
      if isBlank c then return (.shorthand name, more)
      else throw (.because (.afterName c name) (offset + 1 + more) (offset + 2 + more))
    | _, _ => return (.shorthand name, more)

/-- The attributes that stand in what is left of a window at `offset`. -/
def attributesFrom (offset left : Nat) (text : Text) : Except Failure (List (Placed Attribute)) := do
  let blanks ← runLength isBlank left text
  match _h : left - blanks, text.drop blanks with
  | 0, _ => return []
  | _ + 1, [] => throw .outOfText
  | behind + 1, initial :: rest =>
    let start := offset + blanks
    let (found, more) ← attributeAt initial start behind rest
    let others ← attributesFrom (start + 1 + more) (behind - more) (rest.drop more)
    return ⟨found, ⟨start, start + 1 + more⟩⟩ :: others
termination_by left
decreasing_by omega

/-- The attributes that stand in a window of a text. -/
def attributesIn (text : Text) (window : Extent) : Except Failure (List (Placed Attribute)) :=
  attributesFrom window.start (window.stop - window.start) (text.drop window.start)

end ComponentTags
