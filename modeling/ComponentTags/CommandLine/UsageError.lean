import ComponentTags.CommandLine.Flag
import ComponentTags.Text.Quoted
import ComponentTags.Text.Words

/-!
# Wrong use of the command

An error of use is reported under a summary of the command's usage.
-/

namespace ComponentTags.CommandLine

/-- Why a list of arguments is refused. -/
inductive UsageError where
  /-- An abbreviation fits several flags. -/
  | ambiguous (argument : Text) (candidates : List Flag)
  /-- A flag lacks its value. -/
  | valueMissing (flag : Flag)
  /-- A value is attached to a flag that takes none. -/
  | valueIgnored (flag : Flag) (value : Text)
  /-- A flag excludes one before it. -/
  | excluded (flag earlier : Flag)
  /-- No template is named. -/
  | inputMissing
  /-- Arguments without a meaning. -/
  | unrecognized (arguments : List Text)
  deriving DecidableEq, Repr

/-- What a message about a flag begins with. -/
def aboutFlag (flag : Flag) (words : Text) : Text :=
  "argument ".toList ++ flag.spellings ++ ": ".toList ++ words

/-- The message of an error. -/
def UsageError.message : UsageError → Text
  | ambiguous argument candidates =>
    "ambiguous option: ".toList ++ argument ++ " could match ".toList ++
      joinWith ", ".toList (candidates.map Flag.long)
  | valueMissing flag => aboutFlag flag "expected one argument".toList
  | valueIgnored flag value => aboutFlag flag ("ignored explicit argument ".toList ++ quoted value)
  | excluded flag earlier => aboutFlag flag ("not allowed with argument ".toList ++ earlier.spellings)
  | inputMissing => "the following arguments are required: input".toList
  | unrecognized arguments => "unrecognized arguments: ".toList ++ joinWith [' '] arguments

/-- The summary of the command's usage. -/
def usage : Text :=
  ("usage: jrsx [-h] [-o OUTPUT] [--config FILE] [--ext EXT]\n" ++
    "            [--scope-suffix SUFFIX] [--close-self-closing] [--wrap | --entry]\n" ++
    "            [--debug]\n" ++
    "            input\n").toList

/-- The report of an error: the usage, and a line with the message. -/
def UsageError.report (e : UsageError) : Text :=
  usage ++ "jrsx: error: ".toList ++ e.message ++ ['\n']

end ComponentTags.CommandLine
