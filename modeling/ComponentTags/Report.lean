import ComponentTags.Fault
import ComponentTags.Text.Lines

/-!
# Reports

A report names the kind of a fault, its message and its place, quotes the line on which it starts, and marks
the faulty stretch below it. A stretch that ends on another line is marked to the end of the quoted line. Line
numbers that the text does not have quote an empty line.
-/

namespace ComponentTags

/-- The name that a template goes by when none is given. -/
def defaultTemplateName : Text := "template.html".toList

/-- The line that a report quotes, without the line feeds and then the carriage returns at its end. -/
def quotedLine (text : Text) (line : Int) : Text :=
  if 1 ≤ line then
    match (linesOf text)[(line - 1).toNat]? with
    | some content => trimEnd '\r' (trimEnd '\n' content)
    | none => []
  else []

/-- The number of marks below the quoted line; there is always one. -/
def markCount (content : Text) (span : Span) : Nat :=
  let width :=
    if span.stop.line = span.start.line then span.stop.column - span.start.column
    else content.length - span.start.column + 1
  (max 1 width).toNat

/-- A whole number in decimal digits. -/
def decimal (n : Int) : Text := (toString n).toList

/-- The report on a fault of the given kind, message and span in a text of the given name. -/
def report (kind : Kind) (message : Text) (span : Span) (text : Text) (name : Text := defaultTemplateName) : Text :=
  let number := decimal span.start.line
  let content := quotedLine text span.start.line
  let gutter := List.replicate (number.length + 1) ' '
  "error[".toList ++ kind.label ++ "]: ".toList ++ message ++ "\n".toList ++
    gutter ++ "--> ".toList ++ name ++ ":".toList ++ number ++ ":".toList ++
      decimal span.start.column ++ "\n".toList ++
    gutter ++ "|\n".toList ++
    number ++ " | ".toList ++ content ++ "\n".toList ++
    gutter ++ "| ".toList ++ List.replicate (span.start.column - 1).toNat ' ' ++
      List.replicate (markCount content span) '^'

/-- The report on a fault of a text. -/
def Fault.report (f : Fault) (text : Text) (name : Text := defaultTemplateName) : Text :=
  ComponentTags.report f.cause.kind f.cause.message ((LineIndex.ofText text).span f.extent) text name

end ComponentTags
