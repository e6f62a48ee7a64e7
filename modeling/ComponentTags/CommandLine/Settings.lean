import ComponentTags.CommandLine.Arguments
import ComponentTags.Scope
import ComponentTags.Toml.Value

/-!
# Settings

The options of an expansion come from three places: the arguments win over the settings file, and that wins over the
standard. The file is checked whole: a setting of the wrong kind is refused even where an argument wins over it.
Extensions are given with or without dots in front.
-/

namespace ComponentTags.CommandLine

/-- The settings that a file can hold, in the order in which they are checked. -/
inductive Setting where
  /-- The extension of component files. -/
  | extension
  /-- What scope names end in. -/
  | scopeSuffix
  /-- Self-closing components are ended explicitly. -/
  | closeSelfClosing
  deriving DecidableEq, Repr

/-- The key of a setting. -/
def Setting.key : Setting → Text
  | extension => "extension".toList
  | scopeSuffix => "scope_suffix".toList
  | closeSelfClosing => "close_self_closing".toList

/-- The kind of value that a setting has. -/
def Setting.kind : Setting → Text
  | extension | scopeSuffix => "str".toList
  | closeSelfClosing => "bool".toList

/-- The name of the table that holds the settings. -/
def settingsTable : Text := "transpile".toList

/-- The message about a setting of the wrong kind. -/
def Setting.wrongKind (setting : Setting) : Text :=
  "invalid config value for ".toList ++ settingsTable ++ '.' :: setting.key ++ ": expected ".toList ++
    setting.kind

/-- The settings that arguments and file give together. -/
structure Settings where
  /-- The extension of component files, without dots in front. -/
  extension : Text
  /-- What scope names end in. -/
  scopeSuffix : Given
  /-- Self-closing components are ended explicitly. -/
  closeSelfClosing : Bool
  deriving DecidableEq, Repr

/-- What scope names end in, spelled out; nothing is spelled as a pair of brackets. -/
def Given.spelled : Given → Text
  | text t => t
  | nothing => "[]".toList

/-- The options of an expansion under some settings. -/
def Settings.options (settings : Settings) : Options where
  extension := settings.extension
  scopeSuffix := settings.scopeSuffix.spelled
  closeSelfClosing := settings.closeSelfClosing

/-- Why there are no settings. -/
inductive ConfigTrouble where
  /-- The path of the file is too long. -/
  | nameTooLong
  /-- The system gives no access to the file. -/
  | accessRefused
  /-- The file is not UTF-8. -/
  | notText
  /-- The file is not in its format. -/
  | malformed
  /-- The file has a number that is too long. -/
  | numberTooLong
  /-- A setting in the file has a value of a wrong kind. -/
  | wrongKind (setting : Setting)
  /-- The extension given as an argument is not a text. -/
  | noExtension
  deriving DecidableEq, Repr

/-- The table of settings in a file. A value of another kind in its place holds no settings. -/
def settingsIn (file : Toml.Table) : Toml.Table :=
  match file.get? settingsTable with
  | some (.table entries) => entries
  | _ => []

/-- The text under a setting's key, if there is one. -/
def Setting.textIn (setting : Setting) (table : Toml.Table) : Except ConfigTrouble (Option Text) :=
  match table.get? setting.key with
  | none => .ok none
  | some (.string value) => .ok (some value)
  | some _ => .error (.wrongKind setting)

/-- The truth value under a setting's key, if there is one. -/
def Setting.truthIn (setting : Setting) (table : Toml.Table) : Except ConfigTrouble (Option Bool) :=
  match table.get? setting.key with
  | none => .ok none
  | some (.boolean value) => .ok (some value)
  | some _ => .error (.wrongKind setting)

/-- An extension without the dots in front of it. -/
def dropDots (extension : Text) : Text := extension.dropWhile (· == '.')

/-- The extension given as an argument, or else the other one. -/
def extensionGiven (given : Option Given) (other : Text) : Except ConfigTrouble Text :=
  match given with
  | none => .ok other
  | some (.text t) => .ok t
  | some .nothing => .error .noExtension

/-- The settings that the arguments and a settings file give; the first setting of a wrong kind is refused. -/
def Choices.settings (choices : Choices) (file : Toml.Table) : Except ConfigTrouble Settings := do
  let table := settingsIn file
  let extension ← Setting.extension.textIn table
  let scopeSuffix ← Setting.scopeSuffix.textIn table
  let closeSelfClosing ← Setting.closeSelfClosing.truthIn table
  let standard : Options := {}
  let extension ← extensionGiven choices.extension (extension.getD standard.extension)
  return {
    extension := dropDots extension
    scopeSuffix := choices.scopeSuffix.getD (.text (scopeSuffix.getD standard.scopeSuffix))
    closeSelfClosing := choices.closeSelfClosing || closeSelfClosing.getD standard.closeSelfClosing }

end ComponentTags.CommandLine
