import ComponentTags.Path

/-!
# Files

Before it writes, the command asks what stands at paths. A file tree answers such questions. It has a root and a current
directory, from which paths lead on, and files and directories of it can be closed to reading or to writing. A tree has
no links and holds nothing but files and directories; what else can stand at a path is known to the command all the
same.
-/

namespace ComponentTags

/-- What an attempt to read at a path finds. -/
inductive Lookup where
  /-- A file and its content. -/
  | file (content : ByteArray)
  /-- Something else that can be read, such as a pipe, and what comes out of it. -/
  | stream (content : ByteArray)
  /-- A directory. -/
  | directory
  /-- Nothing, in a directory that exists. -/
  | absent
  /-- Nothing, and the directory is missing too. -/
  | orphan
  /-- Nothing, since a file stands on the way. -/
  | beneathFile
  /-- Nothing, since links on the way lead in a circle. -/
  | looped
  /-- Nothing ever: no file has a name with a null character. -/
  | unnameable
  /-- Nothing ever: the path, or a name along it, is too long. -/
  | tooLong
  /-- Something that the system gives no access to, for a reason with a number and a name. -/
  | refused (number : Nat) (name : Text)

/-- What is found where permission is missing. -/
def Lookup.denied : Lookup := .refused 13 "Permission denied".toList

/-- The number of bytes of a text in UTF-8. -/
def byteSize (t : Text) : Nat := t.foldr (fun c size => c.utf8Size + size) 0

/-- The greatest number of bytes of a name. -/
def maxNameSize : Nat := 255

/-- The greatest number of bytes of a path. -/
def maxPathSize : Nat := 4095

/-- Files and directories under the names along their paths from the root. The directories on the way need no
mention. -/
structure FileTree where
  /-- The files with their contents. -/
  files : List (List Text × ByteArray) := []
  /-- Directories that may be empty. -/
  directories : List (List Text) := []
  /-- The directory from which relative paths lead on. -/
  current : List Text := []
  /-- Files that may not be read, and directories that may not be entered. -/
  locked : List (List Text) := []
  /-- Files that may not be changed, and directories that take no new file. -/
  fixed : List (List Text) := []

/-- A directory lies at the names, or is on the way to something. -/
def FileTree.isDirectory (tree : FileTree) (names : List Text) : Bool :=
  names.isPrefixOf tree.current || tree.directories.any names.isPrefixOf ||
    tree.files.any fun f => names.isPrefixOf f.1 && names != f.1

/-- Where a name leads from a directory: two dots lead upwards, and nothing is above the root. -/
def stepInto (directory : List Text) (name : Text) : List Text :=
  if name == ['.', '.'] then directory.dropLast else directory ++ [name]

/-- What a path of names leads to from a directory. Whether a file at its end may be read is left out of account. -/
def FileTree.findFrom (tree : FileTree) : List Text → List Text → Lookup
  | _, [] => .directory
  | directory, name :: rest =>
    if tree.locked.contains directory then .denied
    else if name == ['.', '.'] then tree.findFrom directory.dropLast rest
    else if maxNameSize < byteSize name then .tooLong
    else match tree.files.lookup (directory ++ [name]) with
      | some content => if rest.isEmpty then .file content else .beneathFile
      | none =>
        if tree.isDirectory (directory ++ [name]) then tree.findFrom (directory ++ [name]) rest
        else if rest.isEmpty then .absent else .orphan

/-- The directory from which a path leads on. -/
def FileTree.origin (tree : FileTree) (p : Path) : List Text := if p.root = 0 then tree.current else []

/-- The names from the root to which a path leads, whatever stands on the way. -/
def FileTree.namesOf (tree : FileTree) (p : Path) : List Text := p.parts.foldl stepInto (tree.origin p)

/-- What a path leads to. -/
def FileTree.find (tree : FileTree) (p : Path) : Lookup :=
  if p.parts.any (·.contains '\x00') then .unnameable
  else if maxPathSize < byteSize p.toText then .tooLong
  else tree.findFrom (tree.origin p) p.parts

/-- What an attempt to read at a path finds. -/
def FileTree.look (tree : FileTree) (p : Path) : Lookup :=
  match tree.find p with
  | .file content => if tree.locked.contains (tree.namesOf p) then .denied else .file content
  | found => found

/-- The tree with some content in the file at a path. -/
def FileTree.write (tree : FileTree) (p : Path) (content : ByteArray) : FileTree :=
  { tree with files := (tree.namesOf p, content) :: tree.files.filter fun f => f.1 != tree.namesOf p }

end ComponentTags
