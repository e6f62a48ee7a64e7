import ComponentTags.Text.Classes

/-!
# Values of TOML documents

Tables keep their entries in the order of the document. Numbers, dates and times keep their spelling: no setting
has such a value, so only their kind is ever asked for. A table can be changed at a key of several parts; the
tables on the way are made as needed, and a step into an array goes to its last item.
-/

namespace ComponentTags.Toml

/-- A value of a document. -/
inductive Value where
  /-- A text. -/
  | string (value : Text)
  /-- A truth value. -/
  | boolean (value : Bool)
  /-- An integer or floating point number, as spelled. -/
  | number (spelling : Text)
  /-- A date, a time, or both, as spelled. -/
  | moment (spelling : Text)
  /-- A sequence of values. -/
  | array (items : List Value)
  /-- Values under keys. -/
  | table (entries : List (Text × Value))

/-- The entries of a table. -/
abbrev Table := List (Text × Value)

/-- A key of one or more parts. -/
abbrev Key := List Text

/-- The value under a key of one part. -/
def Table.get? (table : Table) (key : Text) : Option Value := List.lookup key table

/-- The table with a value under a key, in the place of the value that was there. -/
def Table.set (table : Table) (key : Text) (value : Value) : Table :=
  match table with
  | [] => [(key, value)]
  | entry :: rest => if entry.1 == key then (key, value) :: rest else entry :: Table.set rest key value

/-- Change the table at a key. There is no such table if the way leads through another kind of value, and no result
if the change has none. -/
def Table.changeAt (change : Table → Option Table) : Key → Table → Option Table
  | [], table => change table
  | part :: key, table =>
    match table.get? part with
    | none => (changeAt change key []).map fun inner => table.set part (.table inner)
    | some (.table inner) =>
      (changeAt change key inner).map fun inner => table.set part (.table inner)
    | some (.array items) =>
      match items.getLast? with
      | some (.table inner) =>
        (changeAt change key inner).map fun inner =>
          table.set part (.array (items.dropLast ++ [.table inner]))
      | _ => none
    | some _ => none

/-- Put a value under a key of one part that has none yet. -/
def Table.insertNew (key : Text) (value : Value) (table : Table) : Option Table :=
  match table.get? key with
  | none => some (table.set key value)
  | some _ => none

/-- Put one more empty table at the end of the array under a key of one part, which may be missing. -/
def Table.appendTable (key : Text) (table : Table) : Option Table :=
  match table.get? key with
  | none => some (table.set key (.array [.table []]))
  | some (.array items) => some (table.set key (.array (items ++ [.table []])))
  | some _ => none

/-- Why a text is not read as a document. -/
inductive Trouble where
  /-- The text is not in the format. -/
  | malformed
  /-- A whole number has more decimal digits than are read. -/
  | numberTooLong
  deriving DecidableEq, Repr

/-- What was read, or else the text is malformed. -/
def wellFormed {α : Type} : Option α → Except Trouble α
  | some a => .ok a
  | none => .error .malformed

/-- Arrays and tables that are written out as values cannot be added to later. -/
def Value.isContainer : Value → Bool
  | array _ | table _ => true
  | _ => false

end ComponentTags.Toml
