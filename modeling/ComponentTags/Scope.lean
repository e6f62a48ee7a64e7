import ComponentTags.Path
import ComponentTags.Text.LowerCase

/-!
# Names and scopes

The name of a component determines the identifier of its macro, the file that defines it, and the name under
which that file is imported. A registry holds the scopes that a template has used, each once, in the order of
first use. No file is looked at, so every name has a scope.
-/

namespace ComponentTags

/-- How the names of files and scopes are made. -/
structure Naming where
  /-- The extension of component files, without its dot. -/
  extension : Text := "html".toList
  /-- What a scope's name has behind the identifier. -/
  scopeSuffix : Text := "_scope".toList
  deriving DecidableEq, Repr

/-- What can be chosen about an expansion. -/
structure Options extends Naming where
  /-- Self-closing components get an end directive of their own. -/
  closeSelfClosing : Bool := false
  deriving DecidableEq, Repr

/-- The identifier of the macro of a component or file name: lower case, with underscores for hyphens and dots. -/
def macroName (name : Text) : Text :=
  (lower name).map fun c => if c == '-' || c == '.' then '_' else c

/-- The identifier of the macro that the file at a path defines. -/
def Path.macroName (p : Path) : Text := ComponentTags.macroName p.stem

/-- An imported file and the name that stands for it. -/
structure Scope where
  /-- The name under which the file is imported. -/
  name : Text
  /-- The file. -/
  path : Text
  deriving DecidableEq, Repr

/-- The scope of a component. -/
def Naming.scope (naming : Naming) (component : Text) : Scope :=
  let identifier := macroName component
  ⟨identifier ++ naming.scopeSuffix, identifier ++ '.' :: naming.extension⟩

/-- The scopes in use, in the order of first use. -/
abbrev Registry := List Scope

/-- Put a scope into use; one that is in use already keeps its place. -/
def Registry.add (registry : Registry) (scope : Scope) : Registry :=
  if registry.contains scope then registry else registry ++ [scope]

/-- The scope of a component, and the registry with that scope in use. -/
def Registry.resolve (registry : Registry) (naming : Naming) (component : Text) : Scope × Registry :=
  let scope := naming.scope component
  (scope, registry.add scope)

end ComponentTags
