import ComponentTags.Toml.Scalar

/-!
# TOML documents

A document is a sequence of statements, each on a line of its own: a table header, the header of one more table of an
array, or a key with a value. Tables may be declared once, and values are never changed. Three sets of keys keep
watch over this: keys of written-out arrays and tables are sealed with all below them, keys of declared tables
cannot be declared again, and tables that dotted keys have opened count as declared from the next header on.

Nested values and statements are read under a budget. Each call reads at least one character or ends, so twice the
number of characters is always enough.
-/

namespace ComponentTags.Toml

/-- The characters of a key part without quotes. -/
def isBareKeyChar (c : Char) : Bool := c.isAlphanum || c == '-' || c == '_'

/-- One part of a key. -/
def keyPart : Text → Option (Text × Text)
  | [] => none
  | c :: rest =>
    if c == '\x22' then basicText false rest
    else if c == '\x27' then literalText rest
    else if isBareKeyChar c then
      some (c :: rest.takeWhile isBareKeyChar, rest.dropWhile isBareKeyChar)
    else none

/-- A key: parts divided by dots, with blanks around them. -/
def key (budget : Nat) (doc : Text) : Option (Key × Text) :=
  match budget with
  | 0 => none
  | budget + 1 =>
    match keyPart doc with
    | none => none
    | some (part, behind) =>
      match skipBlanks behind with
      | '.' :: rest => (key budget (skipBlanks rest)).map fun (parts, behind) => (part :: parts, behind)
      | behind => some ([part], behind)

/-- A key, an equals sign, and the document at its value. -/
def keyBeforeValue (doc : Text) : Option (Key × Text) :=
  match key (doc.length + 1) doc with
  | some (key, '=' :: rest) => some (key, skipBlanks rest)
  | _ => none

/-- A key lies at or below one of the sealed keys. -/
def isSealed (sealed : List Key) (key : Key) : Bool := sealed.any (·.isPrefixOf key)

/-- Seal the key of a written-out array or table. -/
def sealFor (value : Value) (key : Key) (sealed : List Key) : List Key :=
  if value.isContainer then key :: sealed else sealed

/-- Put a value under a key of one or more parts that has none yet. -/
def insertAt (key : Key) (value : Value) (table : Table) : Option Table :=
  match key.getLast? with
  | some stem => table.changeAt (Table.insertNew stem value) key.dropLast
  | none => none

mutual

/-- A value at the front of a document. -/
def value : Nat → Text → Except Trouble (Value × Text)
  | 0, _ => .error .malformed
  | _ + 1, [] => .error .malformed
  | budget + 1, c :: rest =>
    if c == '\x22' || c == '\x27' then do
      let (text, behind) ← wellFormed (textValue c rest)
      return (.string text, behind)
    else if c == 't' && rest.take 3 == "rue".toList then .ok (.boolean true, rest.drop 3)
    else if c == 'f' && rest.take 4 == "alse".toList then .ok (.boolean false, rest.drop 4)
    else if c == '[' then
      match skipFiller rest with
      | none => .error .malformed
      | some (']' :: behind) => .ok (.array [], behind)
      | some inside => do
        let (items, behind) ← items budget inside
        return (.array items, behind)
    else if c == '\x7b' then
      match skipBlanks rest with
      | '\x7d' :: behind => .ok (.table [], behind)
      | inside => do
        let (entries, behind) ← entries budget [] [] inside
        return (.table entries, behind)
    else plainValue (c :: rest)

/-- The items of an array up to its end; a comma may stand behind the last one. -/
def items : Nat → Text → Except Trouble (List Value × Text)
  | 0, _ => .error .malformed
  | budget + 1, doc => do
    let (item, behind) ← value budget doc
    match skipFiller behind with
    | some (']' :: behind) => return ([item], behind)
    | some (',' :: rest) =>
      match skipFiller rest with
      | none => .error .malformed
      | some (']' :: behind) => return ([item], behind)
      | some more =>
        let (items, behind) ← items budget more
        return (item :: items, behind)
    | _ => .error .malformed

/-- The entries of a written-out table up to its end, behind those of `table`. -/
def entries : Nat → Table → List Key → Text → Except Trouble (Table × Text)
  | 0, _, _, _ => .error .malformed
  | budget + 1, table, sealed, doc => do
    let (key, rest) ← wellFormed (keyBeforeValue doc)
    let (value, behind) ← value budget rest
    if isSealed sealed key then .error .malformed
    else
      let table ← wellFormed (insertAt key value table)
      match skipBlanks behind with
      | '\x7d' :: behind => return (table, behind)
      | ',' :: more => entries budget table (sealFor value key sealed) (skipBlanks more)
      | _ => .error .malformed

end

/-- What has been read of a document. -/
structure Reading where
  /-- The values so far. -/
  root : Table := []
  /-- The key of the table that the statements add to. -/
  header : Key := []
  /-- Keys at and below which nothing is added. -/
  sealedKeys : List Key := []
  /-- Keys of tables that are not declared again. -/
  declared : List Key := []
  /-- Keys that count as declared from the next header on. -/
  opened : List Key := []

/-- A header begins: the tables that dotted keys have opened count as declared. -/
def Reading.closeOpened (r : Reading) : Reading :=
  { r with declared := r.opened ++ r.declared, opened := [] }

/-- The header of a table. -/
def Reading.tableHeader (r : Reading) (key : Key) : Option Reading :=
  if r.declared.contains key || isSealed r.sealedKeys key then none
  else (r.root.changeAt some key).map fun root =>
    { r with root := root, header := key, declared := key :: r.declared }

/-- The header of one more table of an array. What was declared or sealed below its key belongs to the table before
it. -/
def Reading.arrayHeader (r : Reading) (key : Key) : Option Reading :=
  if isSealed r.sealedKeys key then none
  else match key.getLast? with
    | none => none
    | some stem =>
      (r.root.changeAt (Table.appendTable stem) key.dropLast).map fun root =>
        { r with
          root := root
          header := key
          sealedKeys := r.sealedKeys.filter fun k => !key.isPrefixOf k
          declared := key :: r.declared.filter fun k => !key.isPrefixOf k }

/-- The keys of the tables that a dotted key opens below a header, the outermost first. -/
def openedBy (header key : Key) : List Key :=
  ((List.range key.length).drop 1).map fun n => header ++ key.take n

/-- A key with its value. -/
def Reading.assign (r : Reading) (key : Key) (value : Value) : Option Reading :=
  let opened := openedBy r.header key
  if opened.any r.declared.contains then none
  else if isSealed r.sealedKeys (r.header ++ key.dropLast) then none
  else (insertAt (r.header ++ key) value r.root).map fun root =>
    { r with
      root := root
      opened := opened ++ r.opened
      sealedKeys := sealFor value (r.header ++ key) r.sealedKeys }

/-- One statement, and the document behind it. -/
def Reading.statement (r : Reading) (doc : Text) : Except Trouble (Reading × Text) :=
  match doc with
  | '[' :: '[' :: rest =>
    match key (rest.length + 1) (skipBlanks rest) with
    | some (key, ']' :: ']' :: behind) => do return (← wellFormed (r.closeOpened.arrayHeader key), behind)
    | _ => .error .malformed
  | '[' :: rest =>
    match key (rest.length + 1) (skipBlanks rest) with
    | some (key, ']' :: behind) => do return (← wellFormed (r.closeOpened.tableHeader key), behind)
    | _ => .error .malformed
  | _ => do
    let (key, rest) ← wellFormed (keyBeforeValue doc)
    let (value, behind) ← value (2 * rest.length + 2) rest
    return (← wellFormed (r.assign key value), behind)

/-- Statements to the end of the document, each followed by blanks, a comment and a line feed at most. -/
def Reading.statements : Nat → Reading → Text → Except Trouble Table
  | 0, _, _ => .error .malformed
  | budget + 1, r, doc => do
    let (r, behind) ← match skipBlanks doc with
      | [] => .ok (r, [])
      | c :: rest => if c == '\n' || c == '#' then .ok (r, c :: rest) else r.statement (c :: rest)
    match skipComment (skipBlanks behind) with
    | some [] => return r.root
    | some ('\n' :: rest) => Reading.statements budget r rest
    | _ => .error .malformed

/-- Each carriage return before a line feed is dropped. -/
def joinLineEnds : Text → Text
  | [] => []
  | '\r' :: '\n' :: rest => '\n' :: joinLineEnds rest
  | c :: rest => c :: joinLineEnds rest

/-- The table that a document denotes, or the first trouble in it. -/
def parse (doc : Text) : Except Trouble Table :=
  let doc := joinLineEnds doc
  Reading.statements (doc.length + 1) {} doc

end ComponentTags.Toml
