import TerminalFeed.Text.Unprintable

/-!
Text between double quotes, as messages show it: quotes and backslashes are
escaped, and characters that would not be seen are written as numbers.
-/

namespace TerminalFeed.Text

def hexDigits (n : Nat) : List Char :=
  Nat.toDigits 16 n

def quoteChar (c : Char) : List Char :=
  if c == '"' then ['\\', '"']
  else if c == '\\' then ['\\', '\\']
  else if c == '\n' then ['\\', 'n']
  else if c == '\r' then ['\\', 'r']
  else if c == '\t' then ['\\', 't']
  else if c == '\x00' then ['\\', '0']
  else if isUnprintable c then ['\\', 'u', '\x7b'] ++ hexDigits c.toNat ++ ['\x7d']
  else [c]

def quote (text : List Char) : List Char :=
  ['"'] ++ text.flatMap quoteChar ++ ['"']

end TerminalFeed.Text
