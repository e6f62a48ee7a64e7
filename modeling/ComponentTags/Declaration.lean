import ComponentTags.Text.Words

/-!
# Parameter declarations

A template declares the parameters of its macro in a comment that starts with the word `def`. The comment may not
hold a number sign, and white space must follow the word. The first such comment of a template counts.
-/

namespace ComponentTags

/-- A declaration of parameters. -/
structure Declaration where
  /-- What stands between the word and the end of the comment. -/
  body : Text
  deriving DecidableEq, Repr

/-- The front of a declaration. -/
def Declaration.opener : Text := "\x7b#def".toList

/-- A declaration as it stands in the template. -/
def Declaration.toText (d : Declaration) : Text := opener ++ d.body ++ "#\x7d".toList

/-- The declared names. -/
def Declaration.parameters (d : Declaration) : List Text := words d.body

/-- The declaration at the front of a text. -/
def Declaration.atFront? (text : Text) : Option Declaration :=
  match opener.isPrefixOf? text with
  | none => none
  | some rest =>
    if (rest.take 1).any isSpace then
      match rest.dropWhile (· != '#') with
      | _ :: '\x7d' :: _ => some ⟨rest.takeWhile (· != '#')⟩
      | _ => none
    else none

/-- The first declaration in a text. -/
def Declaration.find? : Text → Option Declaration
  | [] => none
  | c :: rest =>
    match atFront? (c :: rest) with
    | some d => some d
    | none => find? rest

/-- The parameters that a template declares. -/
def declaredParameters (text : Text) : List Text :=
  match Declaration.find? text with
  | some d => d.parameters
  | none => []

/-- A text without the first occurrence of another one, which must not be empty. -/
def eraseFirst (piece : Text) : Text → Text
  | [] => []
  | c :: rest =>
    match piece.isPrefixOf? (c :: rest) with
    | some behind => behind
    | none => c :: eraseFirst piece rest

end ComponentTags
