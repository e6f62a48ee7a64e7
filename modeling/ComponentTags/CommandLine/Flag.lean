import ComponentTags.Text.Classes

/-!
# The flags of the command

Each flag has a long spelling, two of them a short one too. Four flags take a value.
-/

namespace ComponentTags.CommandLine

/-- The flags, in the order in which lists of them are printed. -/
inductive Flag where
  /-- Ask for help. -/
  | help
  /-- The file that the result is written to. -/
  | output
  /-- The settings file. -/
  | config
  /-- The extension of component files. -/
  | extension
  /-- What scope names end in. -/
  | scopeSuffix
  /-- End self-closing components explicitly. -/
  | closeSelfClosing
  /-- Make the template a macro. -/
  | wrap
  /-- Make an entry stub for the template. -/
  | entry
  /-- Dump the outline of the template first. -/
  | debug
  deriving DecidableEq, Repr

/-- All flags. -/
def Flag.all : List Flag :=
  [help, output, config, extension, scopeSuffix, closeSelfClosing, wrap, entry, debug]

/-- The long spelling of a flag. -/
def Flag.long : Flag → Text
  | help => "--help".toList
  | output => "--output".toList
  | config => "--config".toList
  | extension => "--ext".toList
  | scopeSuffix => "--scope-suffix".toList
  | closeSelfClosing => "--close-self-closing".toList
  | wrap => "--wrap".toList
  | entry => "--entry".toList
  | debug => "--debug".toList

/-- The letter of a flag's short spelling. -/
def Flag.letter? : Flag → Option Char
  | help => some 'h'
  | output => some 'o'
  | _ => none

/-- The flag needs a value. -/
def Flag.takesValue : Flag → Bool
  | output | config | extension | scopeSuffix => true
  | _ => false

/-- All spellings of a flag, as messages name it. -/
def Flag.spellings (flag : Flag) : Text :=
  match flag.letter? with
  | some c => ['-', c, '/'] ++ flag.long
  | none => flag.long

/-- The flag with a letter. -/
def Flag.ofLetter? (c : Char) : Option Flag := Flag.all.find? (·.letter? == some c)

/-- The flags that a long spelling may mean: the one it spells out, or else all that it begins. -/
def Flag.meantBy (name : Text) : List Flag :=
  match Flag.all.find? (·.long == name) with
  | some flag => [flag]
  | none => Flag.all.filter (name.isPrefixOf ·.long)

end ComponentTags.CommandLine
