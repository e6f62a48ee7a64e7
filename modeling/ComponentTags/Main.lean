import ComponentTags.CommandLine.Run

/-!
# The command as a program

The program looks at the paths that the command may ask about, runs the command on what it has seen, and then prints
and writes what the command says. Where the command aborts, the program names the reason and fails. A text that cannot
be written after all makes the program fail at that point.
-/

namespace ComponentTags.CommandLine

/-- What the file system has at a path, the directory around it left out of account. -/
def probe (p : Path) : IO Lookup := do
  try
    return .file (← IO.FS.readBinFile (String.ofList p.toText))
  catch e =>
    match e with
    | .noFileOrDirectory .. => return .absent
    | .inappropriateType _ code _ => return if code == 21 then .directory else .beneathFile
    | .invalidArgument .. => return .tooLong
    | .permissionDenied .. => return .denied
    | e => throw e

/-- What the file system has at a path. -/
def probeWithParent (p : Path) : IO Lookup := do
  match ← probe p with
  | .absent =>
    match ← probe p.parent with
    | .directory => return .absent
    | _ => return .orphan
  | found => return found

/-- The system by what was seen at paths. A text is taken to come through wherever a file can be opened. -/
def systemOf (seen : List (Path × Lookup)) : System where
  look p := (seen.lookup p).getD .absent
  write p _ :=
    match (seen.lookup p).getD .absent with
    | .directory => .refused .outputIsDirectory
    | .orphan => .refused .outputOrphan
    | .beneathFile => .refused .outputBeneathFile
    | .unnameable => .refused .unnameable
    | .tooLong => .refused .nameTooLong
    | _ => .complete
  print _ := .complete

/-- Why a command was aborted, for a person to read. -/
def Abort.reason : Abort → String
  | noHelp => "no help is available"
  | notText => "a file is not UTF-8"
  | accessRefused => "a file may not be read or written"
  | outputOrphan => "the directory of the result is missing"
  | outputIsDirectory => "the result would replace a directory"
  | outputBeneathFile => "the result would lie below a file"
  | notEncodable => "the result has a character without an encoding"
  | mediumFailed => "the result could not be written to its end"
  | unnameable => "a file name has a null character"
  | nameTooLong => "a path is too long"
  | numberTooLong => "a number in the settings file is too long"
  | noExtension => "the extension is not a text"
  | outOfText => "the template was read past its end"

/-- The exit code of the program, once the reason for an abort is printed. -/
def Ending.exit : Ending → IO UInt32
  | code n => return n.toUInt32
  | misuse => return 2
  | abort a => do
    IO.eprintln a.reason
    return 1

end ComponentTags.CommandLine

open ComponentTags ComponentTags.CommandLine in
/-- The program. -/
def main (args : List String) : IO UInt32 := do
  let arguments := args.map String.toList
  let seen ← (pathsOf arguments).mapM fun p => return (p, ← probeWithParent p)
  let result := run arguments (systemOf seen)
  IO.print (String.ofList result.stdout)
  IO.eprint (String.ofList result.stderr)
  match result.written with
  | some (p, content) => IO.FS.writeBinFile (String.ofList p.toText) content
  | none => pure ()
  result.ending.exit
