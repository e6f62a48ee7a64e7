import ComponentTags.Attribute
import ComponentTags.Scope

/-!
# Directives of the template engine

The texts that stand in the expanded template: calls of macros with their ends, imports of scopes, and the frame of
a macro. Arguments are copied as they were written in the attributes.
-/

namespace ComponentTags

/-- An attribute as an argument of a call: a name alone, or a name, an equals sign and the value. -/
def Attribute.argument : Attribute → Text
  | shorthand name => name
  | named name value => name ++ '=' :: value

namespace Directive

/-- The directive that ends a call. -/
def endCall : Text := "\x7b% endcall %\x7d".toList

/-- The directive that calls the macro of a component in a scope. -/
def call (scopeName component : Text) (attributes : List Attribute) : Text :=
  "\x7b% call ".toList ++ scopeName ++ "::".toList ++ macroName component ++ "(".toList ++
    joinWith ", ".toList (attributes.map (·.argument)) ++ ") %\x7d".toList

/-- A component as directives. Content stands between the call and its end; without content the end is written
only if asked for. -/
def component (closeSelfClosing : Bool) (scopeName name : Text) (attributes : List Attribute)
    (content : Option Text) : Text :=
  let head := call scopeName name attributes
  match content with
  | some content => head ++ content ++ endCall
  | none => if closeSelfClosing then head ++ endCall else head

/-- The directive that imports a file under a name. -/
def importFile (path name : Text) : Text :=
  "\x7b%- import \"".toList ++ path ++ "\" as ".toList ++ name ++ " -%\x7d".toList

/-- The imports of the scopes, one to a line. -/
def preamble (scopes : List Scope) : Text :=
  scopes.flatMap fun scope => importFile scope.path scope.name ++ ['\n']

/-- The line that opens the macro of the given identifier and parameters. -/
def macroStart (identifier : Text) (parameters : List Text) : Text :=
  "\x7b% macro ".toList ++ identifier ++ "(".toList ++ joinWith ", ".toList parameters ++ ") %\x7d\n".toList

/-- The line that closes a macro. -/
def macroStop (identifier : Text) : Text :=
  "\x7b% endmacro ".toList ++ identifier ++ " %\x7d\n".toList

end Directive

end ComponentTags
