import ComponentTags.CommandLine.Files

/-!
# The system around the command

The command reads files, writes one file and prints. What comes of it is up to the system: a path can be closed to
reading or to writing, and a text that is written can get lost on the way. A file is opened before it is written. If it
is opened at all, it exists from then on and its old content is gone, also where the writing breaks off. The writing
breaks off before the first byte where the text has no encoding, as when an argument holds characters that stand for
stray bytes, and later where the medium is full.

Lines that are printed beside the result are taken to come through.
-/

namespace ComponentTags.CommandLine

/-- What aborts the command. -/
inductive Abort where
  /-- Help was asked for, and there is none to print. -/
  | noHelp
  /-- The settings file or the template is not UTF-8. -/
  | notText
  /-- The system gives no access to the settings file or to the file for the result. -/
  | accessRefused
  /-- The directory of the result is missing. -/
  | outputOrphan
  /-- The result would replace a directory. -/
  | outputIsDirectory
  /-- The result would lie below a file. -/
  | outputBeneathFile
  /-- The result has a character without an encoding. -/
  | notEncodable
  /-- The medium did not take all of the result. -/
  | mediumFailed
  /-- A file name has a null character. -/
  | unnameable
  /-- The path of the settings file or of the result is too long. -/
  | nameTooLong
  /-- The settings file has a number that is too long. -/
  | numberTooLong
  /-- The extension given as an argument is not a text. -/
  | noExtension
  /-- The template was read past its end. -/
  | outOfText
  deriving DecidableEq, Repr

/-- How it comes out when a text is handed over. -/
inductive Writing (α : Type) where
  /-- All of the text comes through. -/
  | complete
  /-- Nothing is touched. -/
  | refused (a : Abort)
  /-- Some of the text, or none of it, comes through. -/
  | broken (kept : α) (a : Abort)
  deriving DecidableEq, Repr

/-- The system as the command meets it. -/
structure System where
  /-- What an attempt to read at a path finds. -/
  look : Path → Lookup
  /-- What comes of writing a text to a path, with the bytes that the file has if the writing breaks off. -/
  write : Path → Text → Writing ByteArray
  /-- What comes of printing a text, with the part that is printed if the printing breaks off. -/
  print : Text → Writing Text

end ComponentTags.CommandLine

namespace ComponentTags

open CommandLine

/-- Why no file can be opened for writing at a path of a tree, which has neither streams nor links. -/
def FileTree.writeTrouble? (tree : FileTree) (p : Path) : Option Abort :=
  match tree.find p with
  | .file _ => if tree.fixed.contains (tree.namesOf p) then some .accessRefused else none
  | .absent => if tree.fixed.contains (tree.namesOf p).dropLast then some .accessRefused else none
  | .directory => some .outputIsDirectory
  | .orphan => some .outputOrphan
  | .beneathFile => some .outputBeneathFile
  | .unnameable => some .unnameable
  | .tooLong => some .nameTooLong
  | .stream _ | .looped | .refused _ _ => some .accessRefused

/-- A system with the files of a tree, in which nothing gets lost on the way. -/
def FileTree.system (tree : FileTree) : System where
  look := tree.look
  write p _ :=
    match tree.writeTrouble? p with
    | some a => .refused a
    | none => .complete
  print _ := .complete

end ComponentTags
