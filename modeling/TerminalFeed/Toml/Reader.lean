import TerminalFeed.Text.Decimal
import TerminalFeed.Text.Magnitude
import TerminalFeed.Toml.Table

/-!
Reading TOML 1.0. Each reader takes what it names from the front of a text and
gives the rest; a text that is not TOML is refused as a whole. Whole numbers
are 64-bit, and values may nest 79 deep.
-/

namespace TerminalFeed.Toml

def isSpace (c : Char) : Bool := c == ' ' || c == '\t'

def skipSpace (text : List Char) : List Char := text.dropWhile isSpace

def isPlain (c : Char) : Bool := c == '\t' || (' ' ≤ c && c != '\x7f')

def lineBreak? : List Char → Option (List Char)
  | '\n' :: rest => some rest
  | '\r' :: '\n' :: rest => some rest
  | _ => none

def skipComment : List Char → List Char
  | '#' :: rest => rest.dropWhile isPlain
  | text => text

def lineEnd? (text : List Char) : Option (List Char) :=
  match skipComment (skipSpace text) with
  | [] => some []
  | text => lineBreak? text

/-- Skips blanks, comments and line breaks. A comment needs a line break. -/
def skipLines (inComment : Bool) : List Char → Option (List Char)
  | [] => if inComment then none else some []
  | '\n' :: rest => skipLines false rest
  | '\r' :: '\n' :: rest => skipLines false rest
  | c :: rest =>
    if inComment then
      if isPlain c then skipLines true rest else none
    else if isSpace c then skipLines false rest
    else if c == '#' then skipLines true rest
    else some (c :: rest)

/-! Strings. -/

def hexValue? (c : Char) : Option Nat :=
  if c.isDigit then some (c.toNat - 48)
  else if 'a' ≤ c && c ≤ 'f' then some (c.toNat - 87)
  else if 'A' ≤ c && c ≤ 'F' then some (c.toNat - 55)
  else none

def codePoint? (length : Nat) (text : List Char) : Option (Char × List Char) := do
  let digits ← (text.take length).mapM hexValue?
  let value := digits.foldl (fun n d => n * 16 + d) 0
  guard (digits.length == length && value.isValidChar)
  return (Char.ofNat value, text.drop length)

def escape? : List Char → Option (Char × List Char)
  | 'b' :: rest => some ('\x08', rest)
  | 'f' :: rest => some ('\x0c', rest)
  | 'n' :: rest => some ('\n', rest)
  | 'r' :: rest => some ('\r', rest)
  | 't' :: rest => some ('\t', rest)
  | '\\' :: rest => some ('\\', rest)
  | '"' :: rest => some ('"', rest)
  | 'u' :: rest => codePoint? 4 rest
  | 'U' :: rest => codePoint? 8 rest
  | _ => none

/-- A string on one line, after its first quote. `read` holds what came before,
last first; without escapes a backslash is itself. -/
def lineString (quote : Char) (escapes : Bool) :
    Nat → List Char → List Char → Option (List Char × List Char)
  | 0, _, _ => none
  | fuel + 1, read, text =>
    match text with
    | [] => none
    | c :: rest =>
      if c == quote then some (read.reverse, rest)
      else if escapes && c == '\\' then
        match escape? rest with
        | some (c, rest) => lineString quote escapes fuel (c :: read) rest
        | none => none
      else if isPlain c then lineString quote escapes fuel (c :: read) rest
      else none

def skipBreaks : List Char → List Char
  | [] => []
  | '\r' :: '\n' :: rest => skipBreaks rest
  | c :: rest => if isSpace c || c == '\n' then skipBreaks rest else c :: rest

def hiddenBreak? (text : List Char) : Option (List Char) :=
  (lineBreak? (skipSpace text)).map skipBreaks

/-- A string of several lines, after its three quotes. It ends with three
quotes, and may hold up to two directly before them. -/
def blockString (quote : Char) (escapes : Bool) :
    Nat → List Char → List Char → Option (List Char × List Char)
  | 0, _, _ => none
  | fuel + 1, read, text =>
    match text with
    | [] => none
    | c :: rest =>
      if c == quote then
        let count := (text.takeWhile (· == quote)).length
        if count < 3 then
          blockString quote escapes fuel (List.replicate count quote ++ read) (text.drop count)
        else
          let extra := min (count - 3) 2
          some ((List.replicate extra quote ++ read).reverse, text.drop (extra + 3))
      else if escapes && c == '\\' then
        match hiddenBreak? rest with
        | some rest => blockString quote escapes fuel read rest
        | none =>
          match escape? rest with
          | some (c, rest) => blockString quote escapes fuel (c :: read) rest
          | none => none
      else if isPlain c then blockString quote escapes fuel (c :: read) rest
      else match lineBreak? text with
        | some rest => blockString quote escapes fuel ('\n' :: read) rest
        | none => none

def string? (fuel : Nat) (text : List Char) : Option (List Char × List Char) :=
  let block (quote : Char) (escapes : Bool) (rest : List Char) :=
    blockString quote escapes fuel [] ((lineBreak? rest).getD rest)
  match text with
  | '"' :: '"' :: '"' :: rest => block '"' true rest
  | '\'' :: '\'' :: '\'' :: rest => block '\'' false rest
  | '"' :: rest => lineString '"' true fuel [] rest
  | '\'' :: rest => lineString '\'' false fuel [] rest
  | _ => none

/-! Keys. -/

def isBare (c : Char) : Bool := c.isAlphanum || c == '_' || c == '-'

def simpleKey? (fuel : Nat) (text : List Char) : Option (List Char × List Char) :=
  match text with
  | '"' :: rest => lineString '"' true fuel [] rest
  | '\'' :: rest => lineString '\'' false fuel [] rest
  | _ =>
    let key := text.takeWhile isBare
    if key.isEmpty then none else some (key, text.dropWhile isBare)

/-- The most keys that dots may join, and the most levels of values. -/
def deepest : Nat := 79

def dottedKey? (fuel : Nat) : Nat → List Char → Option (List (List Char) × List Char)
  | 0, _ => none
  | keys + 1, text =>
    match simpleKey? fuel (skipSpace text) with
    | none => none
    | some (key, rest) =>
      match skipSpace rest with
      | '.' :: rest => (dottedKey? fuel keys rest).map fun (path, rest) => (key :: path, rest)
      | rest => some ([key], rest)

/-! Numbers and moments. -/

def digits? (isDigit : Char → Bool) (text : List Char) : Option (List Char × List Char) :=
  let run := text.takeWhile fun c => isDigit c || c == '_'
  let ok := run.head?.any isDigit && run.getLast?.any isDigit
    && (run.zip run.tail).all fun (a, b) => a != '_' || b != '_'
  if ok then some (run.filter (· != '_'), text.drop run.length) else none

def wholeDigits? (text : List Char) : Option (List Char × List Char) :=
  match text with
  | '0' :: rest => some (['0'], rest)
  | _ => digits? Char.isDigit text

def sign (text : List Char) : Bool × List Char :=
  match text with
  | '-' :: rest => (true, rest)
  | '+' :: rest => (false, rest)
  | _ => (false, text)

def decimal (digits : List Char) : Nat := (Decimal.natural? digits).getD 0

def exponent? : List Char → Option (Option Int × List Char)
  | c :: rest =>
    if c == 'e' || c == 'E' then
      let (negative, rest) := sign rest
      (digits? Char.isDigit rest).map fun (digits, rest) =>
        let size : Int := Text.exponentOf 65536 digits
        (some (if negative then -size else size), rest)
    else some (none, c :: rest)
  | [] => some (none, [])

def based? (base : Nat) (text : List Char) : Option (Value × List Char) := do
  let isDigit (c : Char) : Bool := (hexValue? c).any (· < base)
  let (digits, rest) ← digits? isDigit text
  let value ← Decimal.spell? base 9223372036854775807 0
    (digits.map fun c => (hexValue? c).getD 0)
  return (.integer value, rest)

/-- A decimal number. One that has a fraction or an exponent may not round to
infinity, unless it is negative. -/
def decimalNumber? (text : List Char) : Option (Value × List Char) := do
  let (negative, text) := sign text
  let (whole, text) ← wholeDigits? text
  let (fraction, text) ← match text with
    | '.' :: rest => (digits? Char.isDigit rest).map fun (digits, rest) => (some digits, rest)
    | _ => some (none, text)
  let (exponent, text) ← exponent? text
  if fraction.isNone && exponent.isNone then
    guard (whole.length ≤ 19)
    let value : Int := if negative then -(decimal whole : Int) else decimal whole
    guard (-9223372036854775808 ≤ value && value ≤ 9223372036854775807)
    return (.integer value, text)
  else
    let digits := whole ++ fraction.getD []
    let scale := exponent.getD 0 - (fraction.getD []).length
    guard (negative || !Text.roundsToInfinity digits scale)
    return (.real, text)

def word? (word : String) (value : Value) (text : List Char) : Option (Value × List Char) :=
  if word.toList.isPrefixOf text then some (value, text.drop word.length) else none

def number? (text : List Char) : Option (Value × List Char) :=
  match text with
  | '0' :: 'x' :: rest => based? 16 rest
  | '0' :: 'o' :: rest => based? 8 rest
  | '0' :: 'b' :: rest => based? 2 rest
  | _ =>
    let unsigned := (sign text).2
    (word? "inf" .real unsigned).orElse fun _ =>
      (word? "nan" .real unsigned).orElse fun _ => decimalNumber? text

def field? (count low high : Nat) (text : List Char) : Option (Nat × List Char) := do
  let digits := text.take count
  guard (digits.length == count && digits.all Char.isDigit)
  let value := decimal digits
  guard (low ≤ value && value ≤ high)
  return (value, text.drop count)

def mark? (c : Char) (text : List Char) : Option (List Char) :=
  match text with
  | d :: rest => if d == c then some rest else none
  | [] => none

def daysIn (year month : Nat) : Nat :=
  if month == 2 then
    if year % 4 == 0 && (year % 100 != 0 || year % 400 == 0) then 29 else 28
  else if [4, 6, 9, 11].contains month then 30
  else 31

def date? (text : List Char) : Option (List Char) := do
  let (year, text) ← field? 4 0 9999 text
  let (month, text) ← field? 2 1 12 (← mark? '-' text)
  let (_, text) ← field? 2 1 (daysIn year month) (← mark? '-' text)
  return text

def time? (text : List Char) : Option (List Char) := do
  let (_, text) ← field? 2 0 23 text
  let (_, text) ← field? 2 0 59 (← mark? ':' text)
  let (_, text) ← field? 2 0 60 (← mark? ':' text)
  match text with
  | '.' :: rest =>
    guard (rest.head?.any Char.isDigit)
    return rest.dropWhile Char.isDigit
  | _ => return text

def zone? (text : List Char) : Option (List Char) :=
  match text with
  | 'Z' :: rest | 'z' :: rest => some rest
  | '+' :: rest | '-' :: rest => do
      let (_, rest) ← field? 2 0 23 rest
      let (_, rest) ← field? 2 0 59 (← mark? ':' rest)
      return rest
  | _ => some text

def moment? (text : List Char) : Option (List Char) :=
  match date? text with
  | none => time? text
  | some rest =>
    match rest with
    | c :: later =>
      if c == 'T' || c == 't' || c == ' ' then
        match time? later with
        | some rest => zone? rest
        | none => some rest
      else some rest
    | [] => some rest

/-! Values. -/

mutual

def value? : Nat → Nat → List Char → Option (Value × List Char)
  | 0, _, _ => none
  | fuel + 1, depth, text =>
    match text with
    | '"' :: _ | '\'' :: _ => (string? fuel text).map fun (s, rest) => (.string s, rest)
    | '[' :: rest => if depth == 0 then none else items? fuel (depth - 1) [] rest
    | '\x7b' :: rest =>
      if depth == 0 then none
      else match skipSpace rest with
        | '\x7d' :: rest => some (.table .inline [], rest)
        | rest => pairs? fuel (depth - 1) [] rest
    | 't' :: _ => word? "true" (.boolean true) text
    | 'f' :: _ => word? "false" (.boolean false) text
    | _ =>
      match moment? text with
      | some rest => some (.moment, rest)
      | none => number? text

/-- The items of an array, last first in `items`, up to its bracket. -/
def items? : Nat → Nat → List Value → List Char → Option (Value × List Char)
  | 0, _, _, _ => none
  | fuel + 1, depth, items, text =>
    match skipLines false text with
    | none => none
    | some (']' :: rest) => some (.array items.reverse, rest)
    | some text =>
      match value? fuel depth text with
      | none => none
      | some (item, rest) =>
        match skipLines false rest with
        | some (',' :: rest) => items? fuel depth (item :: items) rest
        | some (']' :: rest) => some (.array (item :: items).reverse, rest)
        | _ => none

def pairs? : Nat → Nat → Entries → List Char → Option (Value × List Char)
  | 0, _, _, _ => none
  | fuel + 1, depth, entries, text =>
    match dottedKey? fuel deepest text with
    | some (keys, '=' :: rest) =>
      match value? fuel depth (skipSpace rest), Document.splitLast? keys with
      | some (value, rest), some (path, key) =>
        match entries.assign? path key value with
        | none => none
        | some entries =>
          match skipSpace rest with
          | ',' :: rest => pairs? fuel depth entries rest
          | '\x7d' :: rest => some (.table .inline entries, rest)
          | _ => none
      | _, _ => none
    | _ => none

end

/-! Documents. -/

def statement? (fuel : Nat) (d : Document) (text : List Char) : Option (Document × List Char) :=
  match text with
  | '[' :: '[' :: rest =>
    match dottedKey? fuel deepest rest with
    | some (keys, ']' :: ']' :: rest) => do
        let rest ← lineEnd? rest
        return (← d.openRepeated? keys, rest)
    | _ => none
  | '[' :: rest =>
    match dottedKey? fuel deepest rest with
    | some (keys, ']' :: rest) => do
        let rest ← lineEnd? rest
        return (← d.openTable? keys, rest)
    | _ => none
  | _ =>
    match dottedKey? fuel deepest text with
    | some (keys, '=' :: rest) => do
        let (value, rest) ← value? fuel deepest (skipSpace rest)
        let rest ← lineEnd? rest
        return (← d.assign? keys value, rest)
    | _ => none

def statements? : Nat → Document → List Char → Option Document
  | 0, _, _ => none
  | fuel + 1, d, text =>
    let text := skipSpace text
    match text with
    | [] => some d
    | '#' :: _ => (lineEnd? text).bind (statements? fuel d)
    | _ =>
      match lineBreak? text with
      | some rest => statements? fuel d rest
      | none => (statement? fuel d text).bind fun (d, rest) => statements? fuel d rest

/-- The table that a document describes. A byte order mark may precede it. -/
def parse? (text : List Char) : Option Entries :=
  let text := match text with
    | '\uFEFF' :: rest => rest
    | _ => text
  (statements? (2 * text.length + 3) .empty text).bind Document.close?

end TerminalFeed.Toml
