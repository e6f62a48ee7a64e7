import ComponentTags.Window

/-!
# Marks: the opening and closing tags of components

A mark is recognised at a `<` from the window that follows it. A component's name is read to its end even where
the window stops inside it, so that a text has the same names in every window; all else stops at the end of
the window.

Offsets and sizes are counted from the `<` of the mark.
-/

namespace ComponentTags

/-- An opening tag, `<Name …>` or `<Name …/>`. -/
structure OpeningMark where
  /-- The component's name. -/
  name : Text
  /-- Where the attribute list ends: blanks and the slash before the final `>` do not belong to it. -/
  attributesStop : Nat
  /-- A slash before the final `>` says that there is no content. -/
  selfClosing : Bool
  /-- The number of characters of the mark. -/
  size : Nat
  deriving DecidableEq, Repr

/-- The attribute list begins just behind the name. -/
def OpeningMark.attributesStart (m : OpeningMark) : Nat := m.name.length + 1

/-- A closing tag, `</Name>`. -/
structure ClosingMark where
  /-- The component's name. -/
  name : Text
  /-- The number of characters of the mark. -/
  size : Nat
  deriving DecidableEq, Repr

/-- Either tag of a component. -/
inductive Mark where
  /-- An opening or self-closing tag. -/
  | opening (m : OpeningMark)
  /-- A closing tag. -/
  | closing (m : ClosingMark)
  deriving DecidableEq, Repr

/-- The number of characters of a mark. -/
def Mark.size : Mark → Nat
  | opening m => m.size
  | closing m => m.size

/-- An opening bracket that waits for its closer. -/
structure OpenBracket where
  /-- The closer it waits for. -/
  closer : Char
  /-- Where it stands. -/
  offset : Nat
  deriving DecidableEq, Repr

/-- The offset of the `>` that ends an opening tag, searched from `offset` on, and nothing if the window ends
first. A `>` between quotes or brackets does not count; a closing bracket other than the awaited one is passed
over. If the window ends between quotes or brackets, those are at fault, the innermost bracket first. -/
def tagEnd (brackets : List OpenBracket) (offset : Nat) : Nat → Text → Except Failure (Option Nat)
  | 0, _ =>
    match brackets with
    | [] => .ok none
    | b :: _ => .error (.because (.openBracket b.closer) b.offset (b.offset + 1))
  | _ + 1, [] => .error .outOfText
  | left + 1, c :: rest =>
    if isQuote c then
      match quoteEnd c left rest with
      | .closed size => tagEnd brackets (offset + 1 + size) (left - size) (rest.drop size)
      | .unclosed => .error (.because .openQuote offset (offset + 1))
      | .outOfText => .error .outOfText
    else match closerOf? c with
      | some closer => tagEnd (⟨closer, offset⟩ :: brackets) (offset + 1) left rest
      | none =>
        match brackets with
        | [] => if c == '>' then .ok (some offset) else tagEnd [] (offset + 1) left rest
        | b :: outer =>
          if c == b.closer then tagEnd outer (offset + 1) left rest
          else tagEnd (b :: outer) (offset + 1) left rest
termination_by left => left
decreasing_by all_goals omega

/-- The opening mark that a name begins, once the `>` at the offset `gt` is known to end it. The attribute list
is what stands between, without the blanks at its end and then one slash. -/
def OpeningMark.ofEnd (name behind : Text) (gt : Nat) : OpeningMark :=
  let between := behind.take (gt - (name.length + 1))
  match between.reverse.dropWhile isBlank with
  | [] => ⟨name, name.length + 1, false, gt + 1⟩
  | c :: kept =>
    if c == '/' then ⟨name, name.length + 1 + kept.length, true, gt + 1⟩
    else ⟨name, name.length + 2 + kept.length, false, gt + 1⟩

/-- The opening mark whose `<` stands just before the text. A name that is followed by something other than a
blank, a slash or a `>` belongs to no mark; a name at the end of the text, or one whose `>` is not found, is
at fault. -/
def openingMark? (left : Nat) (text : Text) : Except Failure (Option OpeningMark) :=
  match tagName text with
  | [] => .ok none
  | initial :: more =>
    let name := initial :: more
    let notEnded := Failure.because (.tagNotEnded name) 0 (name.length + 1)
    let behind := text.drop name.length
    match behind with
    | [] => .error notEnded
    | c :: _ =>
      if isBlank c || c == '/' || c == '>' then
        match tagEnd [] (name.length + 1) (left - name.length) behind with
        | .error e => .error e
        | .ok none => .error notEnded
        | .ok (some gt) => .ok (some (.ofEnd name behind gt))
      else .ok none

/-- The number of characters up to a `>` that only blanks precede, and nothing if something else stands there or
the window ends. -/
def blanksToEnd? (left : Nat) (text : Text) : Except Failure (Option Nat) :=
  match runLength isBlank left text with
  | .error e => .error e
  | .ok blanks =>
    match left - blanks, text.drop blanks with
    | _ + 1, '>' :: _ => .ok (some (blanks + 1))
    | _, _ => .ok none

/-- The closing mark whose `<` stands just before the text. -/
def closingMark? : Nat → Text → Except Failure (Option ClosingMark)
  | 0, _ => .ok none
  | _ + 1, [] => .error .outOfText
  | left + 1, c :: rest =>
    if c == '/' then
      match tagName rest with
      | [] => .ok none
      | initial :: more =>
        let name := initial :: more
        match blanksToEnd? (left - name.length) (rest.drop name.length) with
        | .error e => .error e
        | .ok none => .ok none
        | .ok (some size) => .ok (some ⟨name, 2 + name.length + size⟩)
    else .ok none

/-- The mark whose `<` stands just before the text, and nothing if that `<` is plain text. -/
def markAt? (left : Nat) (text : Text) : Except Failure (Option Mark) :=
  match closingMark? left text with
  | .error e => .error e
  | .ok (some m) => .ok (some (.closing m))
  | .ok none =>
    match openingMark? left text with
    | .error e => .error e
    | .ok (some m) => .ok (some (.opening m))
    | .ok none => .ok none

end ComponentTags
