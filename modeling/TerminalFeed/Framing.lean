import TerminalFeed.Envelope
import TerminalFeed.Frame
import TerminalFeed.Limits
import TerminalFeed.Text.Blank
import TerminalFeed.Violation

/-!
One step of decoding: a function of the state, the rules and the bytes at the
front of the input. A stream greets with a line, then stands in `ground`;
sessions and output blocks open from there and return to it.
-/

namespace TerminalFeed

/-- An output block that has not ended: everything between its header and its
end belongs to it, byte for byte. -/
structure OutputBlock where
  id : String
  pid : Int32
  channel : Int32
  depth : Int32
  raw : Array UInt8
  deriving DecidableEq, Repr

namespace OutputBlock

def empty (id : String) (pid channel depth : Int32) : OutputBlock :=
  ⟨id, pid, channel, depth, #[]⟩

def polled (id : String) : OutputBlock := empty id pollPid 0 0

def frame (block : OutputBlock) : Frame :=
  .output block.pid block.channel block.depth
    (if block.pid = pollPid then block.raw.toList ++ pollEndMark else block.raw.toList)

/-- An end for another block is output like any other. -/
def isEndedBy (block : OutputBlock) (e : Envelope) : Bool :=
  e.code == some frameCode &&
    match Text.words e.text.toList with
    | word :: id :: _ => word == "%end".toList && id == block.id.toList
    | _ => false

/-- The header of a block: a word, an identifier and three numbers. -/
def ofHeader? : List (List Char) → Option OutputBlock
  | _ :: id :: pid :: channel :: depth :: _ => do
      let pid ← Decimal.int32? pid
      let channel ← Decimal.int32? channel
      let depth ← Decimal.int32? depth
      return empty (String.ofList id) pid channel depth
  | _ => none

end OutputBlock

namespace Framing

inductive State where
  | initial
  | ground
  | body (session : String)
  | output (block : OutputBlock)
  deriving DecidableEq, Repr

structure Rules where
  connection : String
  -- Pass over payloads that no rule accepts.
  lenient : Bool
  limits : Limits
  deriving DecidableEq, Repr

inductive Event where
  | progress
  | frame (f : Frame)
  | blocked
  | detach (v : Violation)
  deriving DecidableEq, Repr

structure Step where
  state : State
  consumed : Nat
  event : Event
  deriving DecidableEq, Repr

def Step.blocked (state : State) : Step := ⟨state, 0, .blocked⟩

def Step.detach (consumed : Nat) (v : Violation) : Step :=
  ⟨.ground, consumed, .detach v⟩

def dropReturn (line : Bytes) : Bytes :=
  if line.getLast? = some 13 then line.dropLast else line

def greet (rules : Rules) (input : Bytes) : Step :=
  let length := lengthBefore 10 0 input
  if length = input.length then
    if rules.limits.envelope < length then
      .detach length (.envelopeTooLarge rules.limits.envelope)
    else .blocked .initial
  else match Utf8.decode? (dropReturn (input.take length)) with
    | none => .detach (length + 1) .malformedHandshake
    | some text => ⟨.ground, length + 1,
        .frame (.handshake (String.ofList text ++ " " ++ rules.connection))⟩

def terminate? : List (List Char) → Option Frame
  | _ :: pid :: exitCode :: _ => do
      let pid ← Decimal.int32? pid
      let exitCode ← Decimal.int32? exitCode
      return .terminate pid exitCode
  | _ => none

def accept (rules : Rules) (code : UInt16) (text : String) (length : Nat) : Step :=
  let words := Text.words text.toList
  let word := (words.head?.map String.ofList).getD ""
  if word = "begin" then
    match words[1]? with
    | some id =>
        let session := String.ofList id
        ⟨.body session, length, .frame (.sessionBegin session)⟩
    | none => .detach length (.malformedBegin text)
  else if code = controlCode ∧ word = "unhook" ∧ words.length = 1 then
    .detach length .requested
  else if code = frameCode ∧ word = "%output" then
    match OutputBlock.ofHeader? words with
    | some block => ⟨.output block, length, .progress⟩
    | none => .detach length (.malformedOutput text)
  else if code = frameCode ∧ word = "%autopoll" then
    match words[1]? with
    | some id => ⟨.output (.polled (String.ofList id)), length, .progress⟩
    | none => .detach length (.malformedOutput text)
  else if code = frameCode ∧ word = "%terminate" then
    match terminate? words with
    | some f => ⟨.ground, length, .frame f⟩
    | none => .detach length (.malformedTerminate text)
  else if code = frameCode ∧ word.toList.head? = some '%' then
    ⟨.ground, length, .progress⟩
  else if rules.lenient then ⟨.ground, length, .progress⟩
  else .detach length (.unrecognizedPayload code text)

def ground (rules : Rules) (input : Bytes) : Step :=
  match scan rules.limits.envelope input with
  | .incomplete => .blocked .ground
  | .tooLarge => .detach input.length (.envelopeTooLarge rules.limits.envelope)
  | .other length => ⟨.ground, length, .progress⟩
  | .envelope e =>
      if e.isRemote then accept rules (e.code.getD 0) e.text e.length
      else ⟨.ground, e.length, .progress⟩

/-- The status in a line that ends the session: what follows the session's
name and a space, or nothing. -/
def endStatus? (session : String) (line : String) : Option String :=
  match line.toList.splitOnP (· == ' ') with
  | word :: id :: status =>
      if word = "end".toList ∧ id = session.toList then
        some (String.ofList ([' '].intercalate status))
      else none
  | _ => none

def body (rules : Rules) (session : String) (input : Bytes) : Step :=
  match scan rules.limits.envelope input with
  | .incomplete => .blocked (.body session)
  | .tooLarge => .detach input.length (.envelopeTooLarge rules.limits.envelope)
  | .other length => .detach length (.unexpectedBytes session)
  | .envelope e =>
      if e.isRemote then
        match endStatus? session e.text with
        | some status => ⟨.ground, e.length, .frame (.sessionEnd session status)⟩
        | none => ⟨.body session, e.length, .frame (.sessionLine session e.text)⟩
      else .detach e.length (.unexpectedBytes session)

def pushFront (raw : Array UInt8) : Nat → Bytes → Array UInt8
  | 0, _ => raw
  | _, [] => raw
  | length + 1, b :: rest => pushFront (raw.push b) length rest

@[simp] theorem pushFront_eq (raw : Array UInt8) (length : Nat) (input : Bytes) :
    pushFront raw length input = raw ++ input.take length := by
  induction input generalizing raw length with
  | nil => cases length <;> simp [pushFront]
  | cons b rest ih => cases length <;> simp [pushFront, ih]

def extend (rules : Rules) (block : OutputBlock) (length : Nat) (input : Bytes) : Step :=
  if rules.limits.output < block.raw.size + length then
    .detach length (.outputTooLarge block.id rules.limits.output)
  else
    ⟨.output { block with raw := pushFront block.raw length input }, length, .progress⟩

def output (rules : Rules) (block : OutputBlock) (input : Bytes) : Step :=
  match scan rules.limits.envelope input with
  | .incomplete => .blocked (.output block)
  | .tooLarge => .detach input.length (.envelopeTooLarge rules.limits.envelope)
  | .other length => extend rules block length input
  | .envelope e =>
      if block.isEndedBy e then ⟨.ground, e.length, .frame block.frame⟩
      else extend rules block e.length input

def transition (rules : Rules) : State → Bytes → Step
  | .initial, input => greet rules input
  | .ground, input => ground rules input
  | .body session, input => body rules session input
  | .output block, input => output rules block input

end Framing

end TerminalFeed
