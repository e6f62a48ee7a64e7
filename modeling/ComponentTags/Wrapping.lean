import ComponentTags.Declaration
import ComponentTags.Expansion

/-!
# Templates as macros

A template becomes a macro named after its file, with the parameters it declares, so that the components of other
templates can call it. An entry stub imports such a file and calls its macro without arguments.
-/

namespace ComponentTags

/-- The expanded text as the body of the macro of the file at `path`. The first occurrence of the declaration in the
expanded text is left out. -/
def wrap (options : Options) (path : Path) (text : Text) : Except Failure Text :=
  match expandBody options text [] with
  | ⟨.error e, _⟩ => .error e
  | ⟨.ok body, scopes⟩ =>
    let body := match Declaration.find? text with
      | some d => eraseFirst d.toText body
      | none => body
    .ok (Directive.preamble scopes ++ Directive.macroStart path.macroName (declaredParameters text) ++
      body ++ Directive.macroStop path.macroName)

/-- A template that imports the file at `path` and calls its macro. -/
def entryStub (naming : Naming) (path : Path) : Text :=
  let scopeName := path.macroName ++ naming.scopeSuffix
  Directive.importFile path.toText scopeName ++ '\n' ::
    "\x7b% call ".toList ++ scopeName ++ "::".toList ++ path.macroName ++ "() %\x7d".toList ++
    Directive.endCall ++ ['\n']

end ComponentTags
