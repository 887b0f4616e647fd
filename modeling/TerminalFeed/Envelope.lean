import TerminalFeed.Text.Decimal
import TerminalFeed.Text.Utf8

/-!
Envelopes carry frames through a terminal stream:

    ESC ] code ; payload end        where end is BEL or ESC \

`scan` says what stands at the front of some bytes and consumes nothing.
Payloads of codes 134 and 135 belong to the remote helper and are bounded;
any other sequence is passed over, in pieces if it is long.
-/

namespace TerminalFeed

def esc : UInt8 := 0x1B
def bel : UInt8 := 0x07
def bracket : UInt8 := 0x5D
def semicolon : UInt8 := 0x3B
def backslash : UInt8 := 0x5C
def colon : UInt8 := 0x3A

def isDigitByte (b : UInt8) : Bool := 0x30 ≤ b && b ≤ 0x39

/-- The code of output, terminations and sessions. -/
def frameCode : UInt16 := 134

/-- The code that may also ask to detach. -/
def controlCode : UInt16 := 135

structure Envelope where
  code : Option UInt16
  payload : Bytes
  -- Bytes from the first escape to the end of the terminator.
  length : Nat
  deriving DecidableEq, Repr

namespace Envelope

def isRemote (e : Envelope) : Bool :=
  e.code == some frameCode || e.code == some controlCode

/-- The payload as text, without the colon that may lead it. -/
def text (e : Envelope) : String :=
  String.ofList <| Utf8.decodeLossy <| match e.payload with
    | [] => []
    | b :: rest => if b = colon then rest else b :: rest

def encode (code : UInt16) (payload : String) : Bytes :=
  [esc, bracket] ++ Utf8.encode (Decimal.print code.toNat) ++ [semicolon]
    ++ Utf8.encode payload.toList ++ [esc, backslash]

end Envelope

inductive Scan where
  | envelope (e : Envelope)
  | other (length : Nat)
  | incomplete
  | tooLarge
  deriving DecidableEq, Repr

namespace Scan

inductive Ending where
  | closed (count terminator : Nat)
  -- An escape that is no terminator makes the sequence void.
  | aborted (count : Nat)
  | oversized (count : Nat)
  | unfinished
  deriving DecidableEq, Repr

/-- Looks for the end of a payload, `count` bytes into it. A payload of exactly
`limit` bytes may still end. -/
def ending (limit : Nat) (count : Nat) : Bytes → Ending
  | [] => .unfinished
  | b :: rest =>
    if b = bel then .closed count 1
    else if b = esc then
      match rest with
      | [] => .unfinished
      | next :: _ => if next = backslash then .closed count 2 else .aborted count
    else if limit ≤ count then .oversized count
    else ending limit (count + 1) rest

def payload (limit : Nat) (code : Option UInt16) (start : Nat) (bytes : Bytes) : Scan :=
  match ending limit 0 bytes with
  | .closed count terminator =>
      .envelope ⟨code, bytes.take count, start + count + terminator⟩
  | .aborted count => .other (start + count)
  | .oversized count =>
      if code = some frameCode ∨ code = some controlCode then .tooLarge
      else .other (start + count)
  | .unfinished => .incomplete

def readCode (digits : Bytes) : Option UInt16 :=
  (Decimal.atMost? 65535 (digits.map fun b => Char.ofNat b.toNat)).map UInt16.ofNat

/-- What follows the two bytes that open a sequence. A number counts as its
code only with a semicolon behind it. -/
def sequence (limit : Nat) (bytes : Bytes) : Scan :=
  let digits := bytes.takeWhile isDigitByte
  match bytes.dropWhile isDigitByte with
  | [] => if limit < 2 + digits.length then .other (2 + digits.length) else .incomplete
  | b :: rest =>
    if b = semicolon ∧ digits ≠ [] then
      payload limit (readCode digits) (digits.length + 3) rest
    else payload limit none 2 bytes

end Scan

def lengthBefore (stop : UInt8) (count : Nat) : Bytes → Nat
  | [] => count
  | b :: rest => if b = stop then count else lengthBefore stop (count + 1) rest

@[simp] theorem lengthBefore_eq (stop : UInt8) (count : Nat) (bytes : Bytes) :
    lengthBefore stop count bytes = count + (bytes.takeWhile (· ≠ stop)).length := by
  induction bytes generalizing count with
  | nil => rfl
  | cons b rest ih => by_cases h : b = stop <;> simp [lengthBefore, h, ih]; omega

def scan (limit : Nat) : Bytes → Scan
  | [] => .incomplete
  | b :: rest =>
    if b ≠ esc then .other (lengthBefore esc 1 rest)
    else match rest with
      | [] => .incomplete
      | next :: body => if next = bracket then Scan.sequence limit body else .other 1

end TerminalFeed
