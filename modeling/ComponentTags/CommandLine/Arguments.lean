import ComponentTags.CommandLine.Word

/-!
# What the arguments ask for

The words are taken from left to right. One operand names the template, the others and all unknown flags are left
over. When all words are taken, a missing template is an error, and then any word left over. Where a flag is given
twice, the last one counts. These are the rules of argparse 3.11 in its releases before 3.11.10, as for the forms of the
arguments: a separator that is attached to a flag leaves the flag without a text.
-/

namespace ComponentTags.CommandLine

/-- What is made of the template. -/
inductive Mode where
  /-- The expanded template. -/
  | expand
  /-- A macro with the expanded template as its body. -/
  | wrap
  /-- A stub that calls the macro of the template. -/
  | entry
  deriving DecidableEq, Repr

/-- What the flags ask for. -/
structure Choices where
  /-- The file that the result is written to. -/
  output : Option Given := none
  /-- The settings file. -/
  config : Option Given := none
  /-- The extension of component files. -/
  extension : Option Given := none
  /-- What scope names end in. -/
  scopeSuffix : Option Given := none
  /-- Self-closing components are ended explicitly. -/
  closeSelfClosing : Bool := false
  /-- What is made of the template. -/
  mode : Mode := .expand
  /-- The outline is dumped first. -/
  debug : Bool := false
  deriving DecidableEq, Repr

/-- What a complete list of arguments asks for. -/
structure Arguments extends Choices where
  /-- The template. -/
  input : Text
  deriving DecidableEq, Repr

/-- Why a list of arguments asks for nothing. -/
inductive Refusal where
  /-- The arguments are wrong. -/
  | misuse (e : UsageError)
  /-- Help was asked for; there is none to print. -/
  | helpRequested
  deriving DecidableEq, Repr

/-- What has been read of the arguments. -/
structure Draft extends Choices where
  /-- The template, once it is named. -/
  input : Option Text := none
  /-- The last word named the template. -/
  justNamed : Bool := false
  /-- Flags whose turn comes with the value of the last of them. -/
  waiting : Option (List Use × Flag) := none
  /-- The arguments without a meaning, the last one first. -/
  leftOver : List Text := []

/-- Choose what is made of the template. A macro and a stub exclude each other. -/
def Draft.choose (d : Draft) (mode : Mode) : Except Refusal Draft :=
  match d.mode, mode with
  | .wrap, .entry => .error (.misuse (.excluded .entry .wrap))
  | .entry, .wrap => .error (.misuse (.excluded .wrap .entry))
  | _, _ => .ok { d with mode := mode }

/-- Let a flag count. -/
def Draft.use (d : Draft) (use : Use) : Except Refusal Draft :=
  match use.flag with
  | .help => .error .helpRequested
  | .output => .ok { d with output := some use.value }
  | .config => .ok { d with config := some use.value }
  | .extension => .ok { d with extension := some use.value }
  | .scopeSuffix => .ok { d with scopeSuffix := some use.value }
  | .closeSelfClosing => .ok { d with closeSelfClosing := true }
  | .wrap => d.choose .wrap
  | .entry => d.choose .entry
  | .debug => .ok { d with debug := true }

/-- Let flags count one after another. -/
def Draft.useAll (d : Draft) (uses : List Use) : Except Refusal Draft := uses.foldlM Draft.use d

/-- Leave an argument over. -/
def Draft.leave (d : Draft) (text : Text) : Draft := { d with leftOver := text :: d.leftOver }

/-- Take a word that is not a value. The separator belongs to the operand that names the template if it stands next to
that one, on either side; else it is left over. -/
def Draft.takeWord (d : Draft) : Word → Except Refusal Draft
  | .operand text =>
    match d.input with
    | none => .ok { d with input := some text, justNamed := true }
    | some _ => .ok { d.leave text with justNamed := false }
  | .separator =>
    if d.input.isNone || d.justNamed then .ok { d with justNamed := false }
    else .ok (d.leave ['-', '-'])
  | .unknown text => .ok { d.leave text with justNamed := false }
  | .flags (.error e) => .error (.misuse e)
  | .flags (.ok bundle) =>
    let d := { d with justNamed := false }
    match bundle.wanting with
    | some flag => .ok { d with waiting := some (bundle.uses, flag) }
    | none => d.useAll bundle.uses

/-- Take a word: it is the value of the flag that waits for one, if there is one. -/
def Draft.step (d : Draft) (word : Word) : Except Refusal Draft :=
  match d.waiting with
  | none => d.takeWord word
  | some (uses, flag) =>
    match word with
    | .operand value => Draft.useAll { d with waiting := none } (uses ++ [⟨flag, .text value⟩])
    | _ => .error (.misuse (.valueMissing flag))

/-- What a draft asks for once all words are taken. -/
def Draft.complete (d : Draft) : Except Refusal Arguments :=
  match d.waiting, d.input, d.leftOver with
  | some (_, flag), _, _ => .error (.misuse (.valueMissing flag))
  | none, none, _ => .error (.misuse .inputMissing)
  | none, some input, [] => .ok { d.toChoices with input := input }
  | none, some _, _ :: _ => .error (.misuse (.unrecognized d.leftOver.reverse))

/-- What a list of arguments asks for. -/
def Arguments.ofTexts (texts : List Text) : Except Refusal Arguments := do
  let words ← (Word.ofTexts texts).mapError .misuse
  let draft ← words.foldlM Draft.step {}
  draft.complete

end ComponentTags.CommandLine
