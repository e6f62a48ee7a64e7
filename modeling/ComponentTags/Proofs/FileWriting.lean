import ComponentTags.CommandLine.System
import Mathlib.Data.List.Infix

/-!
# A text that is written to a file

A file can be opened for writing where a file or nothing stands in a directory. What is written is then found at the
path, and every other file is found as before. Paths may be absolute or relative, and may lead upwards: the walk along a
path goes through directories alone until its last name, and the writing neither makes nor removes a directory.

Whether a file may be read is a separate matter: it is asked after the file is found, and the writing does not change
it.
-/

namespace ComponentTags

open CommandLine

/-- The tree with a content for the file at the names. -/
def FileTree.put (tree : FileTree) (names : List Text) (content : ByteArray) : FileTree :=
  { tree with files := (names, content) :: tree.files.filter fun f => f.1 != names }

/-- The file at the names has the content that was put there. -/
theorem FileTree.lookup_put_self (tree : FileTree) (names : List Text) (content : ByteArray) :
    (tree.put names content).files.lookup names = some content := by
  simp [put]

/-- The entries under one key do not matter where another one is looked up. -/
theorem lookup_filter_of_ne {files : List (List Text × ByteArray)} {names other : List Text} (h : other ≠ names) :
    (files.filter fun f => f.1 != names).lookup other = files.lookup other := by
  induction files with
  | nil => rfl
  | cons f files ih =>
    obtain ⟨key, content⟩ := f
    by_cases hkey : key = names
    · have hdrop : ((key, content) :: files).filter (fun f => f.1 != names) = files.filter fun f => f.1 != names :=
        List.filter_cons_of_neg (by simp [hkey])
      have hne : (other == key) = false := beq_false_of_ne (hkey ▸ h)
      rw [hdrop, ih, List.lookup_cons, hne]
    · have hkeep : ((key, content) :: files).filter (fun f => f.1 != names) =
          (key, content) :: files.filter fun f => f.1 != names :=
        List.filter_cons_of_pos (bne_iff_ne.mpr hkey)
      rw [hkeep, List.lookup_cons, List.lookup_cons, ih]

/-- The files at other names keep their content. -/
theorem FileTree.lookup_put_of_ne {tree : FileTree} {names other : List Text} (h : other ≠ names)
    (content : ByteArray) : (tree.put names content).files.lookup other = tree.files.lookup other := by
  have hne : (other == names) = false := beq_false_of_ne h
  simp [put, List.lookup_cons, hne, lookup_filter_of_ne h]

/-- Where a file was, there still is one. -/
theorem FileTree.exists_lookup_put (tree : FileTree) (names : List Text) (content : ByteArray) {other : List Text}
    {found : ByteArray} (h : tree.files.lookup other = some found) :
    ∃ after, (tree.put names content).files.lookup other = some after := by
  by_cases hother : other = names
  · rw [hother]
    exact ⟨content, tree.lookup_put_self names content⟩
  · rw [lookup_put_of_ne hother]
    exact ⟨found, h⟩

/-- A directory is on the way to the current directory, to a directory of the list, or to a file. -/
theorem FileTree.isDirectory_eq_true {tree : FileTree} {names : List Text} :
    tree.isDirectory names = true ↔
      (names <+: tree.current ∨ ∃ d ∈ tree.directories, names <+: d) ∨
        ∃ f ∈ tree.files, names <+: f.1 ∧ names ≠ f.1 := by
  simp [isDirectory, List.isPrefixOf_iff_prefix]

/-- What leads to a directory is a directory. -/
theorem FileTree.isDirectory_of_prefix {tree : FileTree} {names front : List Text} (h : tree.isDirectory names = true)
    (hfront : front <+: names) : tree.isDirectory front = true := by
  rw [isDirectory_eq_true] at h ⊢
  rcases h with (hcurrent | ⟨d, hd, hnames⟩) | ⟨f, hf, hnames, hne⟩
  · exact .inl (.inl (hfront.trans hcurrent))
  · exact .inl (.inr ⟨d, hd, hfront.trans hnames⟩)
  · refine .inr ⟨f, hf, hfront.trans hnames, fun heq => hne ?_⟩
    have hback : f.1 <+: names := heq ▸ hfront
    exact hnames.eq_of_length_le hback.length_le

/-- The current directory is a directory, and so is the root. Paths lead on from one of them. -/
theorem FileTree.isDirectory_origin (tree : FileTree) (p : Path) : tree.isDirectory (tree.origin p) = true := by
  refine isDirectory_eq_true.mpr (.inl (.inl ?_))
  unfold origin
  split
  · exact List.prefix_rfl
  · exact List.nil_prefix

/-- A name leads on as it stands, unless it is the one that leads upwards. -/
theorem stepInto_of_ne {name : Text} (h : ¬(name == ['.', '.']) = true) (directory : List Text) :
    stepInto directory name = directory ++ [name] := if_neg h

/-- The name that leads upwards takes the last name away. -/
theorem stepInto_of_up {name : Text} (h : (name == ['.', '.']) = true) (directory : List Text) :
    stepInto directory name = directory.dropLast := if_pos h

/-- A file can stand at the names: they lead to a directory and one name further, where no directory is. -/
structure FileTree.Takes (tree : FileTree) (names : List Text) : Prop where
  /-- The directory of the file exists. -/
  hasDirectory : ∃ directory name, names = directory ++ [name] ∧ tree.isDirectory directory = true
  /-- A file or nothing is at the names. -/
  free : tree.files.lookup names ≠ none ∨ tree.isDirectory names = false

/-- A file that is put where one can stand makes no directories, and removes none. -/
theorem FileTree.Takes.isDirectory_put {tree : FileTree} {names : List Text} (h : tree.Takes names)
    (content : ByteArray) (other : List Text) :
    (tree.put names content).isDirectory other = tree.isDirectory other := by
  rw [Bool.eq_iff_iff]
  constructor
  · intro hafter
    rcases isDirectory_eq_true.mp hafter with hdirectory | ⟨f, hf, hfront, hne⟩
    · exact isDirectory_eq_true.mpr (.inl hdirectory)
    · rcases List.mem_cons.mp hf with hnew | hold
      · obtain ⟨directory, name, hnames, hexists⟩ := h.hasDirectory
        rw [hnew] at hfront hne
        rw [hnames] at hfront hne
        have hwithin : other <+: directory := (List.prefix_concat_iff.mp hfront).resolve_left hne
        exact isDirectory_of_prefix hexists hwithin
      · exact isDirectory_eq_true.mpr (.inr ⟨f, (List.mem_filter.mp hold).1, hfront, hne⟩)
  · intro hbefore
    refine isDirectory_eq_true.mpr ?_
    rcases isDirectory_eq_true.mp hbefore with hdirectory | ⟨f, hf, hfront, hne⟩
    · exact .inl hdirectory
    · by_cases hkey : f.1 = names
      · exact .inr ⟨(names, content), List.mem_cons_self, hkey ▸ hfront, hkey ▸ hne⟩
      · have hkeep : f ∈ tree.files.filter fun f => f.1 != names := List.mem_filter.mpr ⟨hf, bne_iff_ne.mpr hkey⟩
        exact .inr ⟨f, List.mem_cons_of_mem _ hkeep, hfront, hne⟩

/-- A directory stands elsewhere. -/
theorem FileTree.Takes.ne_of_isDirectory {tree : FileTree} {names other : List Text} (h : tree.Takes names)
    (hfile : tree.files.lookup other = none) (hother : tree.isDirectory other = true) : other ≠ names := by
  rintro rfl
  rcases h.free with hsome | hnone
  · exact hsome hfile
  · rw [hother] at hnone
    cases hnone

/-- What stands at a path is a file, or nothing in a directory that exists: a file can be opened there. -/
def Lookup.takesText : Lookup → Bool
  | .file _ | .absent => true
  | _ => false

/-- A path that takes a text leads to names at which a file can stand. -/
theorem FileTree.takes_of_findFrom {tree : FileTree} {directory parts : List Text}
    (hdirectory : tree.isDirectory directory = true) (h : (tree.findFrom directory parts).takesText = true) :
    tree.Takes (parts.foldl stepInto directory) := by
  fun_induction findFrom tree directory parts with
  | case1 => cases h
  | case2 => cases h
  | case3 directory name rest _ hup ih =>
    rw [List.foldl_cons, stepInto_of_up hup]
    exact ih (tree.isDirectory_of_prefix hdirectory directory.dropLast_prefix) h
  | case4 => cases h
  | case5 directory name rest _ hup _ content hfile hrest =>
    rw [List.isEmpty_iff.mp hrest, List.foldl_cons, stepInto_of_ne hup, List.foldl_nil]
    exact ⟨⟨directory, name, rfl, hdirectory⟩, .inl (by simp [hfile])⟩
  | case6 => cases h
  | case7 directory name rest _ hup _ _ hinner ih =>
    rw [List.foldl_cons, stepInto_of_ne hup]
    exact ih hinner h
  | case8 directory name rest _ hup _ _ hnone hrest =>
    rw [List.isEmpty_iff.mp hrest, List.foldl_cons, stepInto_of_ne hup, List.foldl_nil]
    exact ⟨⟨directory, name, rfl, hdirectory⟩, .inr (by simpa using hnone)⟩
  | case9 => cases h

/-- What is put where a path leads is found by that path: the walk through the directories is the same as before, and
the last name is that of the file. -/
theorem FileTree.findFrom_put_self {tree : FileTree} {names directory parts : List Text} (htakes : tree.Takes names)
    (hnames : parts.foldl stepInto directory = names) (h : (tree.findFrom directory parts).takesText = true)
    (content : ByteArray) : (tree.put names content).findFrom directory parts = .file content := by
  have hlocked : (tree.put names content).locked = tree.locked := rfl
  fun_induction findFrom tree directory parts with
  | case1 => cases h
  | case2 => cases h
  | case3 directory name rest hopen hup ih =>
    rw [List.foldl_cons, stepInto_of_up hup] at hnames
    rw [findFrom, hlocked, if_neg hopen, if_pos hup]
    exact ih hnames h
  | case4 => cases h
  | case5 directory name rest hopen hup hsize found hfile hrest =>
    rw [List.isEmpty_iff.mp hrest, List.foldl_cons, stepInto_of_ne hup, List.foldl_nil] at hnames
    rw [findFrom, hlocked, if_neg hopen, if_neg hup, if_neg hsize, hnames, lookup_put_self]
    exact if_pos hrest
  | case6 => cases h
  | case7 directory name rest hopen hup hsize hfile hinner ih =>
    rw [List.foldl_cons, stepInto_of_ne hup] at hnames
    rw [findFrom, hlocked, if_neg hopen, if_neg hup, if_neg hsize,
      lookup_put_of_ne (htakes.ne_of_isDirectory hfile hinner), hfile]
    dsimp only
    rw [htakes.isDirectory_put, if_pos hinner]
    exact ih hnames h
  | case8 directory name rest hopen hup hsize hfile hnone hrest =>
    rw [List.isEmpty_iff.mp hrest, List.foldl_cons, stepInto_of_ne hup, List.foldl_nil] at hnames
    rw [findFrom, hlocked, if_neg hopen, if_neg hup, if_neg hsize, hnames, lookup_put_self]
    exact if_pos hrest
  | case9 => cases h

/-- A path that leads elsewhere finds the files that it found before. Where it leads on from the names themselves, it
finds no file at all. -/
theorem FileTree.findFrom_put_of_ne {tree : FileTree} {names directory parts : List Text} (htakes : tree.Takes names)
    (hne : parts.foldl stepInto directory ≠ names) (content found : ByteArray) :
    (tree.put names content).findFrom directory parts = .file found ↔ tree.findFrom directory parts = .file found := by
  have hlocked : (tree.put names content).locked = tree.locked := rfl
  fun_induction findFrom tree directory parts with
  | case1 => rfl
  | case2 directory name rest hclosed => rw [findFrom, hlocked, if_pos hclosed]
  | case3 directory name rest hopen hup ih =>
    rw [List.foldl_cons, stepInto_of_up hup] at hne
    rw [findFrom, hlocked, if_neg hopen, if_pos hup]
    exact ih hne
  | case4 directory name rest hopen hup hsize => rw [findFrom, hlocked, if_neg hopen, if_neg hup, if_pos hsize]
  | case5 directory name rest hopen hup hsize other hfile hrest =>
    rw [List.isEmpty_iff.mp hrest, List.foldl_cons, stepInto_of_ne hup, List.foldl_nil] at hne
    rw [findFrom, hlocked, if_neg hopen, if_neg hup, if_neg hsize, lookup_put_of_ne hne, hfile]
    dsimp only
    rw [if_pos hrest]
  | case6 directory name rest hopen hup hsize other hfile hrest =>
    obtain ⟨inside, hinside⟩ := tree.exists_lookup_put names content hfile
    rw [findFrom, hlocked, if_neg hopen, if_neg hup, if_neg hsize, hinside]
    dsimp only
    rw [if_neg hrest]
  | case7 directory name rest hopen hup hsize hfile hinner ih =>
    rw [List.foldl_cons, stepInto_of_ne hup] at hne
    rw [findFrom, hlocked, if_neg hopen, if_neg hup, if_neg hsize,
      lookup_put_of_ne (htakes.ne_of_isDirectory hfile hinner), hfile]
    dsimp only
    rw [htakes.isDirectory_put, if_pos hinner]
    exact ih hne
  | case8 directory name rest hopen hup hsize hfile hnone hrest =>
    rw [List.isEmpty_iff.mp hrest, List.foldl_cons, stepInto_of_ne hup, List.foldl_nil] at hne
    rw [findFrom, hlocked, if_neg hopen, if_neg hup, if_neg hsize, lookup_put_of_ne hne, hfile]
    dsimp only
    rw [htakes.isDirectory_put, if_neg hnone, if_pos hrest]
  | case9 directory name rest hopen hup hsize hfile hnone hrest =>
    rw [findFrom, hlocked, if_neg hopen, if_neg hup, if_neg hsize, htakes.isDirectory_put, if_neg hnone,
      if_neg hrest]
    cases (tree.put names content).files.lookup (directory ++ [name]) with
    | some inside => exact ⟨by simp [hrest], nofun⟩
    | none => rfl

/-- A file can be opened for writing only where a file or nothing stands. -/
theorem FileTree.takesText_of_writeTrouble? {tree : FileTree} {p : Path} (h : tree.writeTrouble? p = none) :
    (tree.find p).takesText = true := by
  unfold writeTrouble? at h
  cases hfound : tree.find p with
  | file _ | absent => rfl
  | _ =>
    rw [hfound] at h
    cases h

/-- Where a file can be opened, nothing is wrong with the names of the path or with its length, so that the walk along
it decides. -/
theorem FileTree.find_eq_findFrom {tree : FileTree} {p : Path} (h : (tree.find p).takesText = true) (other : FileTree)
    (hcurrent : other.current = tree.current) : other.find p = other.findFrom (tree.origin p) p.parts := by
  unfold find at h ⊢
  split at h
  · cases h
  · next hnull =>
    split at h
    · cases h
    · next hsize =>
      rw [if_neg hnull, if_neg hsize]
      unfold origin
      rw [hcurrent]

/-- What is written to a file that can be opened is found there. -/
theorem FileTree.find_write_self {tree : FileTree} {p : Path} (h : tree.writeTrouble? p = none)
    (content : ByteArray) : (tree.write p content).find p = .file content := by
  have htext := takesText_of_writeTrouble? h
  rw [find_eq_findFrom htext (tree.write p content) rfl]
  rw [find_eq_findFrom htext tree rfl] at htext
  exact findFrom_put_self (takes_of_findFrom (tree.isDirectory_origin p) htext) rfl htext content

/-- All other files are found as before. -/
theorem FileTree.find_write_of_ne {tree : FileTree} {p q : Path} (h : tree.writeTrouble? p = none)
    (hne : tree.namesOf q ≠ tree.namesOf p) (content found : ByteArray) :
    (tree.write p content).find q = .file found ↔ tree.find q = .file found := by
  have htext := takesText_of_writeTrouble? h
  rw [find_eq_findFrom htext tree rfl] at htext
  have htakes : tree.Takes (tree.namesOf p) := takes_of_findFrom (tree.isDirectory_origin p) htext
  unfold find
  split
  · rfl
  · split
    · rfl
    · exact findFrom_put_of_ne htakes hne content found

end ComponentTags
