/-!
JSON values and their compact text.
-/

namespace TerminalFeed

inductive Json where
  | null
  | bool (b : Bool)
  -- A number written without fraction or exponent, within 64 bits.
  | integer (n : Int)
  -- Any other number; nothing here reads its value.
  | real
  | string (s : String)
  | array (items : List Json)
  | object (fields : List (String × Json))
  deriving Inhabited

namespace Json

def record (fields : List (String × Json)) : Json :=
  .object (fields.mergeSort fun a b => a.1 ≤ b.1)

def text (chars : List Char) : Json := .string (String.ofList chars)

def natural (n : Nat) : Json := .integer n

def field? (key : String) : Json → Option Json
  | .object fields => (fields.find? (·.1 == key)).map (·.2)
  | _ => none

def escapeChar (c : Char) : List Char :=
  if c == '"' then ['\\', '"']
  else if c == '\\' then ['\\', '\\']
  else if c == '\x08' then ['\\', 'b']
  else if c == '\x0c' then ['\\', 'f']
  else if c == '\n' then ['\\', 'n']
  else if c == '\r' then ['\\', 'r']
  else if c == '\t' then ['\\', 't']
  else if c < ' ' then
    ['\\', 'u', '0', '0', Nat.digitChar (c.toNat / 16), Nat.digitChar (c.toNat % 16)]
  else [c]

def writeString (out : String) (s : String) : String :=
  (s.toList.foldl (fun out c => (escapeChar c).foldl String.push out) (out.push '"')).push '"'

mutual

def write (out : String) : Json → String
  | .null => out ++ "null"
  | .bool b => out ++ (if b then "true" else "false")
  | .integer n => out ++ toString n
  | .real => out ++ "0.0"
  | .string s => writeString out s
  | .array items => (writeItems (out.push '[') true items).push ']'
  | .object fields => (writeFields (out.push '\x7b') true fields).push '\x7d'

def writeItems (out : String) (first : Bool) : List Json → String
  | [] => out
  | item :: rest =>
    writeItems (write (if first then out else out.push ',') item) false rest

def writeFields (out : String) (first : Bool) : List (String × Json) → String
  | [] => out
  | (key, value) :: rest =>
    let out := writeString (if first then out else out.push ',') key
    writeFields (write (out.push ':') value) false rest

end

def print (value : Json) : String := write "" value

end Json

end TerminalFeed
