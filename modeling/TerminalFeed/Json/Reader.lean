import TerminalFeed.Json.Basic
import TerminalFeed.Text.Magnitude

/-!
Reading JSON. A text is refused if anything but blanks follows its value, if
values nest deeper than 127, if a number is too large for a double, or if a
string holds half of a surrogate pair.
-/

namespace TerminalFeed.Json

def isBlank (c : Char) : Bool :=
  c == ' ' || c == '\n' || c == '\t' || c == '\r'

def skipBlanks (text : List Char) : List Char := text.dropWhile isBlank

def hexValue? (c : Char) : Option Nat :=
  if c.isDigit then some (c.toNat - 48)
  else if 'a' ≤ c && c ≤ 'f' then some (c.toNat - 87)
  else if 'A' ≤ c && c ≤ 'F' then some (c.toNat - 55)
  else none

def unit? : List Char → Option (Nat × List Char)
  | a :: b :: c :: d :: rest => do
      let a ← hexValue? a
      let b ← hexValue? b
      let c ← hexValue? c
      let d ← hexValue? d
      return (((a * 16 + b) * 16 + c) * 16 + d, rest)
  | _ => none

/-- The character that a `\u` escape stands for; a high surrogate needs a low
one in a second escape. -/
def escaped? (text : List Char) : Option (Char × List Char) :=
  match unit? text with
  | none => none
  | some (high, rest) =>
    if 0xDC00 ≤ high && high ≤ 0xDFFF then none
    else if 0xD800 ≤ high && high ≤ 0xDBFF then
      match rest with
      | '\\' :: 'u' :: rest =>
        match unit? rest with
        | none => none
        | some (low, rest) =>
          if 0xDC00 ≤ low && low ≤ 0xDFFF then
            some (Char.ofNat (0x10000 + (high - 0xD800) * 0x400 + (low - 0xDC00)), rest)
          else none
      | _ => none
    else some (Char.ofNat high, rest)

def simpleEscape? (c : Char) : Option Char :=
  match c with
  | '"' => some '"'
  | '\\' => some '\\'
  | '/' => some '/'
  | 'b' => some '\x08'
  | 'f' => some '\x0c'
  | 'n' => some '\n'
  | 'r' => some '\r'
  | 't' => some '\t'
  | _ => none

def readString : Nat → List Char → List Char → Option (String × List Char)
  | 0, _, _ => none
  | fuel + 1, read, text =>
    match text with
    | [] => none
    | '"' :: rest => some (String.ofList read.reverse, rest)
    | '\\' :: 'u' :: rest =>
      match escaped? rest with
      | some (c, rest) => readString fuel (c :: read) rest
      | none => none
    | '\\' :: c :: rest =>
      match simpleEscape? c with
      | some c => readString fuel (c :: read) rest
      | none => none
    | c :: rest => if c < ' ' then none else readString fuel (c :: read) rest

structure Numeral where
  negative : Bool
  whole : List Char
  fraction : Option (List Char)
  exponent : Option Int

def digitsOf (text : List Char) : List Char × List Char :=
  (text.takeWhile Char.isDigit, text.dropWhile Char.isDigit)

/-- An exponent of this size or more makes a number vast or zero, whatever its
digits are. -/
def vastExponent : Nat := 2147483648

def readExponent : List Char → Option (Option Int × List Char)
  | c :: text =>
    if c == 'e' || c == 'E' then
      let (negative, text) := match text with
        | '-' :: rest => (true, rest)
        | '+' :: rest => (false, rest)
        | _ => (false, text)
      let (digits, rest) := digitsOf text
      if digits.isEmpty then none
      else
        let size : Int := Text.exponentOf vastExponent digits
        some (some (if negative then -size else size), rest)
    else some (none, c :: text)
  | [] => some (none, [])

def readNumeral (text : List Char) : Option (Numeral × List Char) := do
  let (negative, text) := match text with
    | '-' :: rest => (true, rest)
    | _ => (false, text)
  let (whole, text) := digitsOf text
  guard (!whole.isEmpty && (whole.length == 1 || whole.head? != some '0'))
  let (fraction, text) ← match text with
    | '.' :: rest =>
      let (digits, rest) := digitsOf rest
      if digits.isEmpty then none else some (some digits, rest)
    | _ => some (none, text)
  let (exponent, text) ← readExponent text
  return (⟨negative, whole, fraction, exponent⟩, text)

/-- Adds digits to a significand as long as it fits in 64 bits: what it comes
to, and the digits left over. -/
def accumulate (significand : Nat) : List Char → Nat × List Char
  | [] => (significand, [])
  | c :: rest =>
    let longer := significand * 10 + (c.toNat - 48)
    if longer ≤ 18446744073709551615 then accumulate longer rest
    else (significand, c :: rest)

/-- The significand of 64 bits and the power of ten that approximate a numeral.
A digit left over before the point still counts as a place. -/
def Numeral.approximation (n : Numeral) : Nat × Int :=
  let fraction := n.fraction.getD []
  let (significand, whole) := accumulate 0 n.whole
  let (significand, rest) := accumulate significand fraction
  (significand, n.exponent.getD 0 + whole.length - (fraction.length - rest.length))

/-- An integer is a numeral without fraction and exponent whose digits are all
in the significand. A negative zero is no integer. -/
def Numeral.value? (n : Numeral) : Option Json :=
  let (significand, exponent) := n.approximation
  let whole := n.fraction.isNone && n.exponent.isNone && exponent == 0
  if whole && !n.negative then some (.integer significand)
  else if whole && 0 < significand && significand ≤ 9223372036854775808 then
    some (.integer (-(significand : Int)))
  else if Text.productIsInfinite significand exponent then none
  else some .real

def expect? (word : String) (value : Json) (text : List Char) :
    Option (Json × List Char) :=
  if word.toList.isPrefixOf text then some (value, text.drop word.length) else none

mutual

def readValue : Nat → Nat → List Char → Option (Json × List Char)
  | 0, _, _ => none
  | fuel + 1, depth, text =>
    match skipBlanks text with
    | [] => none
    | '"' :: rest => (readString fuel [] rest).map fun (s, rest) => (.string s, rest)
    | '[' :: rest =>
      if depth == 0 then none
      else match skipBlanks rest with
        | ']' :: rest => some (.array [], rest)
        | rest => readItems fuel (depth - 1) [] rest
    | '\x7b' :: rest =>
      if depth == 0 then none
      else match skipBlanks rest with
        | '\x7d' :: rest => some (.object [], rest)
        | rest => readFields fuel (depth - 1) [] rest
    | 't' :: rest => expect? "rue" (.bool true) rest
    | 'f' :: rest => expect? "alse" (.bool false) rest
    | 'n' :: rest => expect? "ull" .null rest
    | rest =>
      match readNumeral rest with
      | some (n, rest) => n.value?.map fun value => (value, rest)
      | none => none

def readItems : Nat → Nat → List Json → List Char → Option (Json × List Char)
  | 0, _, _, _ => none
  | fuel + 1, depth, items, text =>
    match readValue fuel depth text with
    | none => none
    | some (item, rest) =>
      match skipBlanks rest with
      | ',' :: rest => readItems fuel depth (item :: items) rest
      | ']' :: rest => some (.array (item :: items).reverse, rest)
      | _ => none

def readFields : Nat → Nat → List (String × Json) → List Char →
    Option (Json × List Char)
  | 0, _, _, _ => none
  | fuel + 1, depth, fields, text =>
    match skipBlanks text with
    | '"' :: rest =>
      match readString fuel [] rest with
      | none => none
      | some (key, rest) =>
        match skipBlanks rest with
        | ':' :: rest =>
          match readValue fuel depth rest with
          | none => none
          | some (value, rest) =>
            match skipBlanks rest with
            | ',' :: rest => readFields fuel depth ((key, value) :: fields) rest
            | '\x7d' :: rest => some (.object ((key, value) :: fields).reverse, rest)
            | _ => none
        | _ => none
    | _ => none

end

def deepest : Nat := 127

def parse? (text : String) : Option Json :=
  let chars := text.toList
  match readValue (2 * chars.length + 2) deepest chars with
  | some (value, rest) => if (skipBlanks rest).isEmpty then some value else none
  | none => none

end TerminalFeed.Json
