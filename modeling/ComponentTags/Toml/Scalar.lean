import ComponentTags.Toml.Value

/-!
# Texts, numbers and moments in TOML documents

Each reader is given the document from a place on. It returns what it read and the document behind it, and nothing
if what stands there is not well formed. Line ends are line feeds alone by the time a document is read.
-/

namespace ComponentTags.Toml

/-- Spaces and tabs. -/
def isBlankChar (c : Char) : Bool := c == ' ' || c == '\t'

/-- Spaces, tabs and line feeds. -/
def isFillerChar (c : Char) : Bool := isBlankChar c || c == '\n'

/-- Control characters other than the tab, which stand in no comment and no text of one line. -/
def isControl (c : Char) : Bool := (c.toNat < 0x20 || c.toNat == 0x7f) && c != '\t'

/-- Control characters that stand in no text of several lines either. -/
def isControlInLines (c : Char) : Bool := isControl c && c != '\n'

/-- The document without the spaces and tabs at its front. -/
def skipBlanks (doc : Text) : Text := doc.dropWhile isBlankChar

/-- The document behind a comment at its front, if there is one: a comment ends at the line feed. -/
def skipComment (doc : Text) : Option Text :=
  match doc with
  | '#' :: rest =>
    if (rest.takeWhile (· != '\n')).any isControl then none else some (rest.dropWhile (· != '\n'))
  | _ => some doc

/-- The document without the comments, blanks and line feeds at its front. -/
def skipFiller (doc : Text) : Option Text :=
  match _h : doc.dropWhile isFillerChar with
  | '#' :: rest =>
    if (rest.takeWhile (· != '\n')).any isControl then none else skipFiller (rest.dropWhile (· != '\n'))
  | other => some other
termination_by doc.length
decreasing_by
  have hrest := (List.dropWhile_sublist (· != '\n') (l := rest)).length_le
  have hdoc := (List.dropWhile_sublist isFillerChar (l := doc)).length_le
  simp only [_h, List.length_cons] at hdoc
  omega

/-- The value of a hexadecimal digit. -/
def hexValue? (c : Char) : Option Nat :=
  if c.isDigit then some (c.toNat - '0'.toNat)
  else if 'a' ≤ c && c ≤ 'f' then some (c.toNat - 'a'.toNat + 10)
  else if 'A' ≤ c && c ≤ 'F' then some (c.toNat - 'A'.toNat + 10)
  else none

/-- The number that hexadecimal digits spell. -/
def hexNumber? (digits : Text) : Option Nat :=
  digits.foldl (fun n c => do return 16 * (← n) + (← hexValue? c)) (some 0)

/-- The character whose code point the first `width` characters spell; surrogates are no characters. -/
def codePoint? (width : Nat) (doc : Text) : Option Char :=
  if (doc.take width).length = width then
    match hexNumber? (doc.take width) with
    | some n => if n < 0xd800 || (0xe000 ≤ n && n ≤ 0x10ffff) then some (Char.ofNat n) else none
    | none => none
  else none

/-- What an escape stands for, and how many characters it has behind its backslash. In a text of several lines a
backslash before a line end, with blanks at most between, hides all white space up to the next other character. -/
def escape (multiline : Bool) : Text → Option (Text × Nat)
  | [] => none
  | c :: rest =>
    if multiline && c == '\n' then some ([], 1 + (rest.takeWhile isFillerChar).length)
    else if multiline && isBlankChar c then
      let blanks := (rest.takeWhile isBlankChar).length
      match rest.dropWhile isBlankChar with
      | [] => some ([], 1 + blanks)
      | '\n' :: behind => some ([], 2 + blanks + (behind.takeWhile isFillerChar).length)
      | _ => none
    else if c == 'u' then (codePoint? 4 rest).map fun c => ([c], 5)
    else if c == 'U' then (codePoint? 8 rest).map fun c => ([c], 9)
    else if c == 'b' then some (['\x08'], 1)
    else if c == 't' then some (['\t'], 1)
    else if c == 'n' then some (['\n'], 1)
    else if c == 'f' then some (['\x0c'], 1)
    else if c == 'r' then some (['\r'], 1)
    else if c == '\x22' || c == '\\' then some ([c], 1)
    else none

/-- The text up to the closing double quote, or up to three of them in a text of several lines. -/
def basicText (multiline : Bool) : Text → Option (Text × Text)
  | [] => none
  | c :: rest =>
    if c == '\x22' then
      if !multiline then some ([], rest)
      else if rest.take 2 == ['\x22', '\x22'] then some ([], rest.drop 2)
      else (basicText multiline rest).map fun (text, behind) => (c :: text, behind)
    else if c == '\\' then
      match escape multiline rest with
      | some (meaning, size) =>
        (basicText multiline (rest.drop size)).map fun (text, behind) => (meaning ++ text, behind)
      | none => none
    else if isControl c && !(multiline && c == '\n') then none
    else (basicText multiline rest).map fun (text, behind) => (c :: text, behind)
termination_by doc => doc.length
decreasing_by all_goals simp only [List.length_cons, List.length_drop]; omega

/-- The text up to the next apostrophe. -/
def literalText (doc : Text) : Option (Text × Text) :=
  let text := doc.takeWhile (· != '\x27')
  match doc.dropWhile (· != '\x27') with
  | _ :: behind => if text.any isControl then none else some (text, behind)
  | [] => none

/-- The text up to the next three apostrophes. -/
def literalLines : Text → Option (Text × Text)
  | '\x27' :: '\x27' :: '\x27' :: behind => some ([], behind)
  | [] => none
  | c :: rest =>
    if isControlInLines c then none
    else (literalLines rest).map fun (text, behind) => (c :: text, behind)

/-- Up to two quotes more may stand before the three that close a text of several lines. -/
def extraQuotes (quote : Char) (read : Text × Text) : Text × Text :=
  match read with
  | (text, c :: d :: behind) =>
    if c == quote then
      if d == quote then (text ++ [quote, quote], behind) else (text ++ [quote], d :: behind)
    else (text, c :: d :: behind)
  | (text, [c]) => if c == quote then (text ++ [quote], []) else (text, [c])
  | (text, []) => (text, [])

/-- A line feed right behind the opening quotes does not count. -/
def skipFirstFeed : Text → Text
  | '\n' :: rest => rest
  | doc => doc

/-- A text value, behind its first quote. -/
def textValue (quote : Char) (doc : Text) : Option (Text × Text) :=
  match doc with
  | c :: d :: rest =>
    if c == quote && d == quote then
      let inside := skipFirstFeed rest
      (if quote == '\x22' then basicText true inside else literalLines inside).map (extraQuotes quote)
    else if quote == '\x22' then basicText false doc
    else literalText doc
  | _ => if quote == '\x22' then basicText false doc else literalText doc

/-- Digits of a class behind a first one, single underscores between them left out of account. -/
def skipDigits (p : Char → Bool) : Text → Text
  | [] => []
  | [c] => if p c then [] else [c]
  | c :: d :: rest =>
    if p c then skipDigits p (d :: rest)
    else if c == '_' && p d then skipDigits p rest
    else c :: d :: rest

/-- The document behind at least one digit of a class. -/
def skipNumeral (p : Char → Bool) : Text → Option Text
  | [] => none
  | c :: rest => if p c then some (skipDigits p rest) else none

/-- The document behind a fraction, if one stands there. -/
def skipFraction : Text → Text
  | '.' :: rest => (skipNumeral Char.isDigit rest).getD ('.' :: rest)
  | doc => doc

/-- The document behind an exponent, if one stands there. -/
def skipExponent : Text → Text
  | [] => []
  | c :: rest =>
    if c == 'e' || c == 'E' then
      let digits := match rest with
        | '+' :: digits => digits
        | '-' :: digits => digits
        | digits => digits
      (skipNumeral Char.isDigit digits).getD (c :: rest)
    else c :: rest

/-- The document behind a decimal number without its sign. A number of several digits does not begin with zero. -/
def skipDecimal : Text → Option Text
  | [] => none
  | c :: rest =>
    if c == '0' then some (skipExponent (skipFraction rest))
    else if c.isDigit then some (skipExponent (skipFraction (skipDigits Char.isDigit rest)))
    else none

/-- The document behind a number: hexadecimal, binary, octal, or decimal with or without a sign. -/
def skipNumber (doc : Text) : Option Text :=
  let radix := match doc with
    | '0' :: 'x' :: rest => skipNumeral (fun c => (hexValue? c).isSome) rest
    | '0' :: 'b' :: rest => skipNumeral (fun c => c == '0' || c == '1') rest
    | '0' :: 'o' :: rest => skipNumeral (fun c => '0' ≤ c && c ≤ '7') rest
    | _ => none
  match radix with
  | some behind => some behind
  | none =>
    match doc with
    | '+' :: rest => skipDecimal rest
    | '-' :: rest => skipDecimal rest
    | _ => skipDecimal doc

/-- The number that two digits spell, if it is not above a limit. -/
def twoDigits? (limit : Nat) : Text → Option (Nat × Text)
  | c :: d :: rest =>
    if c.isDigit && d.isDigit then
      let n := 10 * (c.toNat - '0'.toNat) + (d.toNat - '0'.toNat)
      if n ≤ limit then some (n, rest) else none
    else none
  | _ => none

/-- The document behind a time of day: hours, minutes and seconds, and maybe a fraction of a second. -/
def skipTime (doc : Text) : Option Text :=
  match twoDigits? 23 doc with
  | some (_, ':' :: rest) =>
    match twoDigits? 59 rest with
    | some (_, ':' :: rest) =>
      match twoDigits? 59 rest with
      | some (_, '.' :: c :: rest) =>
        if c.isDigit then some (rest.dropWhile Char.isDigit) else some ('.' :: c :: rest)
      | some (_, rest) => some rest
      | none => none
    | _ => none
  | _ => none

/-- The document behind a distance from universal time, if one stands there. -/
def skipZone (doc : Text) : Text :=
  let offset (rest : Text) : Text :=
    match twoDigits? 23 rest with
    | some (_, ':' :: rest) =>
      match twoDigits? 59 rest with
      | some (_, rest) => rest
      | none => doc
    | _ => doc
  match doc with
  | 'Z' :: rest => rest
  | 'z' :: rest => rest
  | '+' :: rest => offset rest
  | '-' :: rest => offset rest
  | _ => doc

/-- The number of days of a month. -/
def daysIn (year month : Nat) : Nat :=
  if month = 2 then
    if year % 4 = 0 && (year % 100 != 0 || year % 400 = 0) then 29 else 28
  else if month = 4 || month = 6 || month = 9 || month = 11 then 30
  else 31

/-- A date at the front of a document: whether the calendar has it, and the document behind it. -/
def date? (doc : Text) : Option (Bool × Text) :=
  match twoDigits? 99 doc with
  | some (century, rest) =>
    match twoDigits? 99 rest with
    | some (yearIn, '-' :: rest) =>
      match twoDigits? 12 rest with
      | some (month, '-' :: rest) =>
        match twoDigits? 31 rest with
        | some (day, rest) =>
          let year := 100 * century + yearIn
          if 1 ≤ month && 1 ≤ day then some (1 ≤ year && day ≤ daysIn year month, rest) else none
        | none => none
      | _ => none
    | _ => none
  | none => none

/-- The document behind the time of day that may follow a date, with its zone. -/
def skipTimeOfDate (doc : Text) : Text :=
  match doc with
  | c :: rest =>
    if c == 'T' || c == 't' || c == ' ' then
      match skipTime rest with
      | some behind => skipZone behind
      | none => doc
    else doc
  | [] => doc

/-- What a document begins with, given what stands behind it. -/
def spelling (doc behind : Text) : Text := doc.take (doc.length - behind.length)

/-- Spellings of numbers that are not made of digits. -/
def skipSpecial (doc : Text) : Option Text :=
  let unsigned := match doc with
    | '+' :: rest => rest
    | '-' :: rest => rest
    | _ => doc
  if unsigned.take 3 == "inf".toList || unsigned.take 3 == "nan".toList then some (unsigned.drop 3) else none

/-- The greatest number of decimal digits of a whole number. -/
def maxDigits : Nat := 4300

/-- A number is too long if it is a whole one in decimal digits, and has too many of them. Other bases, fractions and
exponents know no limit. -/
def isTooLong (number : Text) : Bool :=
  number.all (fun c => c.isDigit || c == '_' || c == '+' || c == '-') && maxDigits < number.countP Char.isDigit

/-- A number with its spelling, and the document behind it. -/
def numberValue (doc behind : Text) : Except Trouble (Value × Text) :=
  if isTooLong (spelling doc behind) then .error .numberTooLong
  else .ok (.number (spelling doc behind), behind)

/-- A number or moment. What looks like a date must be one of the calendar. -/
def plainValue (doc : Text) : Except Trouble (Value × Text) :=
  match date? doc with
  | some (false, _) => .error .malformed
  | some (true, rest) =>
    let behind := skipTimeOfDate rest
    .ok (.moment (spelling doc behind), behind)
  | none =>
    match skipTime doc with
    | some behind => .ok (.moment (spelling doc behind), behind)
    | none =>
      match skipNumber doc with
      | some behind => numberValue doc behind
      | none =>
        match skipSpecial doc with
        | some behind => .ok (.number (spelling doc behind), behind)
        | none => .error .malformed

end ComponentTags.Toml
