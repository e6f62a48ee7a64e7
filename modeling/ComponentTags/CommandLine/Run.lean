import ComponentTags.CommandLine.Settings
import ComponentTags.CommandLine.System
import ComponentTags.Dump
import ComponentTags.Text.Lines
import ComponentTags.Toml.Document
import ComponentTags.Wrapping

/-!
# The command

The command reads a settings file and a template, and writes one result. It is a function of its arguments and of the
system around it: it ends in a certain way, and says what is printed and what file is left behind. Some troubles have a
report and an exit code. Others, such as texts that are not UTF-8, settings that may not be read and results that cannot
be written, abort the command without a report.
-/

namespace ComponentTags.CommandLine

/-- How the command ends. -/
inductive Ending where
  /-- With an exit code of its own. -/
  | code (n : Nat)
  /-- With the exit code of wrong use. -/
  | misuse
  /-- Without an exit code of its own. -/
  | abort (a : Abort)
  deriving DecidableEq, Repr

/-- What the command does. -/
structure Result where
  /-- How it ends. -/
  ending : Ending
  /-- What it prints as its result. -/
  stdout : Text := []
  /-- What it prints beside its result. -/
  stderr : Text := []
  /-- The file it writes to, and what that file has then. -/
  written : Option (Path × ByteArray) := none

/-- Results are compared field by field, and the bytes of files with the comparison of the core library. -/
instance : DecidableEq Result :=
  letI : DecidableEq ByteArray := ByteArray.instDecidableEq
  fun a b => decidable_of_iff
    (a.ending = b.ending ∧ a.stdout = b.stdout ∧ a.stderr = b.stderr ∧ a.written = b.written)
    (by cases a; cases b; simp)

/-- The bytes of a text in UTF-8. -/
def encodeText (text : Text) : ByteArray := (String.ofList text).toUTF8

/-- The text that bytes encode as UTF-8. -/
def decodeText? (bytes : ByteArray) : Option Text := (String.fromUTF8? bytes).map String.toList

/-- The template's path. -/
def Arguments.inputPath (arguments : Arguments) : Path := Path.ofText arguments.input

/-- The path of a flag's value; an empty value, or one that is not a text, counts as none. -/
def pathOf? (value : Option Given) : Option Path :=
  match value with
  | some (.text (c :: rest)) => some (Path.ofText (c :: rest))
  | _ => none

/-- The name of the settings file that stands beside the template. -/
def settingsFileName : Text := "jrsx.toml".toList

/-- The path of the settings file: the one asked for, or else the one beside the template. -/
def Arguments.configPath (arguments : Arguments) : Path :=
  (pathOf? arguments.config).getD (arguments.inputPath.parent.child settingsFileName)

/-- Trouble with the format of the settings file. -/
def ConfigTrouble.ofToml : Toml.Trouble → ConfigTrouble
  | .malformed => malformed
  | .numberTooLong => numberTooLong

/-- The content of the settings file. What is not a file holds nothing, but one must be allowed to find that out. -/
def readConfig (found : Lookup) : Except ConfigTrouble Toml.Table :=
  match found with
  | .file bytes =>
    match decodeText? bytes with
    | none => .error .notText
    | some text => (Toml.parse text).mapError ConfigTrouble.ofToml
  | .tooLong => .error .nameTooLong
  | .refused _ _ => .error .accessRefused
  | _ => .ok []

/-- What there is to do once arguments and settings are known. -/
structure Job where
  /-- The template. -/
  input : Path
  /-- The file for the result, if it is not printed. -/
  output : Option Path
  /-- The settings of the expansion. -/
  settings : Settings
  /-- What is made of the template. -/
  mode : Mode
  /-- The outline is dumped first. -/
  debug : Bool
  deriving DecidableEq, Repr

/-- The job that arguments ask for, given what stands at paths. -/
def Arguments.job (arguments : Arguments) (look : Path → Lookup) : Except ConfigTrouble Job := do
  let file ← readConfig (look arguments.configPath)
  let settings ← arguments.settings file
  return {
    input := arguments.inputPath
    output := pathOf? arguments.output
    settings := settings
    mode := arguments.mode
    debug := arguments.debug }

/-- The line about a file that cannot be read: the number and name of the trouble, and the path. -/
def readTrouble (number : Nat) (name : Text) (p : Path) : Text :=
  "error: [Errno ".toList ++ decimal number ++ "] ".toList ++ name ++ ": ".toList ++
    quoted p.toText ++ ['\n']

/-- The text of the template, or the end that a template without one makes. -/
def readTemplate (p : Path) (found : Lookup) : Except Result Text :=
  match found with
  | .file bytes | .stream bytes =>
    match decodeText? bytes with
    | none => .error { ending := .abort .notText }
    | some text => .ok (unifyLineEnds text)
  | .directory => .error { ending := .code 2, stderr := readTrouble 21 "Is a directory".toList p }
  | .beneathFile => .error { ending := .code 2, stderr := readTrouble 20 "Not a directory".toList p }
  | .absent | .orphan =>
    .error { ending := .code 2, stderr := readTrouble 2 "No such file or directory".toList p }
  | .looped => .error { ending := .code 2, stderr := readTrouble 40 "Too many levels of symbolic links".toList p }
  | .tooLong => .error { ending := .code 2, stderr := readTrouble 36 "File name too long".toList p }
  | .refused number name => .error { ending := .code 2, stderr := readTrouble number name p }
  | .unnameable => .error { ending := .abort .unnameable }

/-- The end that a failure makes. -/
def failureResult (p : Path) (text : Text) : Failure → Result
  | .fault f => { ending := .code 1, stderr := f.report text p.toText ++ ['\n'] }
  | .outOfText => { ending := .abort .outOfText }

/-- Hand over the result: print it, or write it to its file. What has come through when that breaks off stays. -/
def deliver (system : System) (output : Option Path) (result : Text) : Result :=
  match output with
  | none =>
    match system.print result with
    | .complete => { ending := .code 0, stdout := result }
    | .refused a => { ending := .abort a }
    | .broken kept a => { ending := .abort a, stdout := kept }
  | some p =>
    match system.write p result with
    | .complete => { ending := .code 0, written := some (p, encodeText result) }
    | .refused a => { ending := .abort a }
    | .broken kept a => { ending := .abort a, written := some (p, kept) }

/-- Expand a template as a job asks and hand over the result. -/
def Job.expandTemplate (job : Job) (system : System) (text : Text) : Result :=
  let expanded := match job.mode with
    | .wrap => wrap job.settings.options job.input text
    | _ => expand job.settings.options text
  match expanded with
  | .error e => failureResult job.input text e
  | .ok result => deliver system job.output result

/-- The same result with other lines printed first. -/
def Result.after (lines : Text) (r : Result) : Result := { r with stderr := lines ++ r.stderr }

/-- Do a job. An entry stub needs no template. -/
def Job.run (job : Job) (system : System) : Result :=
  match job.mode with
  | .entry => deliver system job.output (entryStub job.settings.options.toNaming job.input)
  | _ =>
    match readTemplate job.input (system.look job.input) with
    | .error r => r
    | .ok text =>
      if job.debug then
        let dump := dumpText text
        Result.after dump.lines <|
          match dump.failure with
          | some e => failureResult job.input text e
          | none => job.expandTemplate system text
      else job.expandTemplate system text

/-- The end that trouble with the settings makes. The report on a file that is not in its format would go on with the
words of the parser behind the colon; they are left out here, and the line ends there. -/
def ConfigTrouble.result : ConfigTrouble → Result
  | nameTooLong => { ending := .abort .nameTooLong }
  | accessRefused => { ending := .abort .accessRefused }
  | notText => { ending := .abort .notText }
  | numberTooLong => { ending := .abort .numberTooLong }
  | noExtension => { ending := .abort .noExtension }
  | malformed => { ending := .code 2, stderr := "error: invalid config file: \n".toList }
  | wrongKind setting =>
    { ending := .code 2, stderr := "error: ".toList ++ setting.wrongKind ++ ['\n'] }

/-- The end that refused arguments make. -/
def Refusal.result : Refusal → Result
  | misuse e => { ending := .misuse, stderr := e.report }
  | helpRequested => { ending := .abort .noHelp }

/-- Run the command. -/
def run (arguments : List Text) (system : System) : Result :=
  match Arguments.ofTexts arguments with
  | .error refusal => refusal.result
  | .ok arguments =>
    match arguments.job system.look with
    | .error trouble => trouble.result
    | .ok job => job.run system

/-- The paths that the command may ask about. -/
def pathsOf (arguments : List Text) : List Path :=
  match Arguments.ofTexts arguments with
  | .error _ => []
  | .ok arguments => arguments.configPath :: arguments.inputPath :: (pathOf? arguments.output).toList

end ComponentTags.CommandLine
