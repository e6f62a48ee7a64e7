import ComponentTags.Expansion

/-!
# Diagnostics for editors

An editor opens and changes documents, and tells so. Each such notification is answered for its document: no diagnostic
if the text expands, else one for the fault. Lines and characters count from zero here. Documents are expanded with the
default options.

The texts of the documents are kept elsewhere. What is answered depends on them by way of a function, which gives the
text that each document has by then.
-/

namespace ComponentTags

/-- A fault as an editor shows it. -/
structure Diagnostic where
  /-- Line of the first character. -/
  startLine : Int
  /-- Number of the first character in its line. -/
  startCharacter : Int
  /-- Line of the place behind the last character. -/
  stopLine : Int
  /-- Number in its line of the place behind the last character. -/
  stopCharacter : Int
  /-- What is wrong. -/
  message : Text
  /-- How bad it is: 1 is for errors. -/
  severity : Nat
  /-- The kind of the fault. -/
  code : Text
  /-- The name of the tool that has found it. -/
  tool : Text
  deriving DecidableEq, Repr

/-- The diagnostic of a fault in a text. -/
def Diagnostic.ofFault (text : Text) (f : Fault) : Diagnostic :=
  let span := (LineIndex.ofText text).span f.extent
  { startLine := span.start.line - 1
    startCharacter := span.start.column - 1
    stopLine := span.stop.line - 1
    stopCharacter := span.stop.column - 1
    message := f.cause.message
    severity := 1
    code := f.cause.kind.label
    tool := "jrsx".toList }

/-- The diagnostics of a text. -/
def diagnose (text : Text) : List Diagnostic :=
  match expand {} text with
  | .error (.fault f) => [Diagnostic.ofFault text f]
  | _ => []

/-- What is sent to the editor about a document. -/
structure Publication where
  /-- The document. -/
  uri : Text
  /-- All that is wrong with it now. -/
  diagnostics : List Diagnostic

/-- Publish what is wrong with a document, in whose place stands the text that `source` has for it. -/
def validate (source : Text → Text) (uri : Text) : List Publication := [⟨uri, diagnose (source uri)⟩]

/-- What is published when a document has been opened. -/
def didOpen (source : Text → Text) (uri : Text) : List Publication := validate source uri

/-- What is published when the text of a document has been replaced. -/
def didChange (source : Text → Text) (uri : Text) : List Publication := validate source uri

/-- What an editor tells about a document, with the text that the document has from then on. -/
inductive Notification where
  /-- The document has been opened. -/
  | opened (uri text : Text)
  /-- Its text has been replaced. -/
  | changed (uri text : Text)

/-- What is published at a notification, with the texts that the documents have once it has come. -/
def Notification.answer (source : Text → Text) : Notification → List Publication
  | opened uri _ => didOpen source uri
  | changed uri _ => didChange source uri

/-- What is published at notifications that come one after another behind those of `past`. For all that have come by
some time, `source` has the texts that the documents then have. -/
def publications (source : List Notification → Text → Text) (past : List Notification) :
    List Notification → List (List Publication)
  | [] => []
  | notification :: rest =>
    let past := past ++ [notification]
    notification.answer (source past) :: publications source past rest

end ComponentTags
