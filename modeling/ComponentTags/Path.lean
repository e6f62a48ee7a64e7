import ComponentTags.Text.Words

/-!
# File paths

A path is a root of no, one or two slashes and a list of parts. Empty parts and parts that are a single dot are
dropped when a path is read, parts of two dots are kept. Nothing here looks at a file system.
-/

namespace ComponentTags

/-- A file path in its normal form. -/
structure Path where
  /-- The number of slashes in front: two stay two, and any other number of them is one. -/
  root : Nat
  /-- The names along the path. -/
  parts : List Text
  deriving DecidableEq, Repr

/-- The path that a text denotes. -/
def Path.ofText (text : Text) : Path where
  root := match (text.takeWhile (· == '/')).length with
    | 0 => 0
    | 2 => 2
    | _ => 1
  parts := (splitAtChar '/' text).filter fun part => part != [] && part != ['.']

/-- The normal spelling of a path; the empty path is spelled as a dot. -/
def Path.toText (p : Path) : Text :=
  match p.root, p.parts with
  | 0, [] => ['.']
  | root, parts => List.replicate root '/' ++ joinWith ['/'] parts

/-- The last name along the path. -/
def Path.name (p : Path) : Text := p.parts.getLast?.getD []

/-- The part of a name before its last dot, if that dot is neither its first nor its last character. -/
def stemOf (name : Text) : Text :=
  match name.reverse.takeWhile (· != '.'), name.reverse.dropWhile (· != '.') with
  | _ :: _, _ :: c :: before => (c :: before).reverse
  | _, _ => name

/-- The last name along the path without its extension. -/
def Path.stem (p : Path) : Text := stemOf p.name

/-- The path without its last name. -/
def Path.parent (p : Path) : Path := ⟨p.root, p.parts.dropLast⟩

/-- The path of a name in the directory `p`. -/
def Path.child (p : Path) (name : Text) : Path := ⟨p.root, p.parts ++ [name]⟩

end ComponentTags
