import TerminalFeed.Parser

/-!
A decoder keeps the bytes that a parser has not consumed, in chunks of any
size, and gives out frames. Once detached it gives out one last frame, and
`takeRemaining` hands the rest to the terminal.
-/

namespace TerminalFeed

structure Decoder where
  parser : Parser
  buffer : Array UInt8
  position : Nat
  checkpoint : Option Checkpoint
  detachReported : Bool
  deriving DecidableEq, Repr

namespace Decoder

def ofParser (p : Parser) : Decoder := ⟨p, #[], 0, none, false⟩

def new (connection : String) (limits : Limits) : Decoder :=
  ofParser (.new connection limits)

def recovery (connection : String) (limits : Limits) : Decoder :=
  ofParser (.recovery connection limits)

def compactionThreshold : Nat := 4096

def compact (d : Decoder) : Decoder :=
  if compactionThreshold < d.position ∧ d.buffer.size / 2 < d.position then
    { d with buffer := d.buffer.extract d.position, position := 0 }
  else d

def push (d : Decoder) (data : Bytes) : Decoder :=
  let d := d.compact
  { d with buffer := d.buffer ++ data }

def unreadFrom (d : Decoder) (offset : Nat) : Bytes :=
  d.buffer.foldr List.cons [] d.buffer.size (d.position + offset)

def unread (d : Decoder) : Bytes := d.unreadFrom 0

def available (d : Decoder) : Nat := d.buffer.size - d.position

theorem toList_extract_eq_drop (bytes : Array UInt8) (start : Nat) :
    (bytes.extract start).toList = bytes.toList.drop start := by
  rw [Array.toList_extract, List.extract_eq_take_drop]
  exact List.take_of_length_le (by simp)

theorem foldr_cons_eq_drop (bytes : Array UInt8) (start : Nat) :
    bytes.foldr List.cons [] bytes.size start = bytes.toList.drop start := by
  rw [Array.foldr_eq_foldr_extract, ← Array.foldr_toList, List.foldr_cons_nil,
    toList_extract_eq_drop]

theorem unread_eq (d : Decoder) : d.unread = d.buffer.toList.drop d.position :=
  foldr_cons_eq_drop d.buffer d.position

theorem unreadFrom_eq (d : Decoder) (offset : Nat) :
    d.unreadFrom offset = d.unread.drop offset := by
  rw [unreadFrom, foldr_cons_eq_drop, unread_eq, List.drop_drop]

@[simp] theorem length_unread (d : Decoder) : d.unread.length = d.available := by
  simp [unread_eq, available]

@[simp] theorem unread_compact (d : Decoder) : d.compact.unread = d.unread := by
  unfold compact
  split
  · rw [unread_eq, unread_eq, toList_extract_eq_drop, List.drop_zero]
  · rfl

theorem unread_push (d : Decoder) (data : Bytes) (inside : d.position ≤ d.buffer.size) :
    (d.push data).unread = d.unread ++ data := by
  have kept : d.compact.position ≤ d.compact.buffer.size := by
    unfold compact
    split
    · exact Nat.zero_le _
    · exact inside
  rw [← unread_compact d]
  simp only [push, unread_eq, Array.toList_appendList]
  exact List.drop_append_of_le_length (by simpa using kept)

def hasDetached (d : Decoder) : Bool := d.parser.hasDetached

def outset (d : Decoder) : Framing.State × Nat :=
  d.parser.outset d.available d.checkpoint

/-- The bytes that the parser's next call reads: none before its checkpoint. -/
def ahead (d : Decoder) : Bytes := d.unreadFrom d.outset.2

def resume (d : Decoder) (ahead : Bytes) : Parser.Result :=
  d.parser.go (d.available + 1) d.outset.1 d.outset.2 ahead

theorem resume_ahead (d : Decoder) : d.resume d.ahead = d.parser.resume d.unread d.checkpoint := by
  simp only [resume, ahead, outset, Parser.resume, unreadFrom_eq, length_unread]

def accept (d : Decoder) (result : Parser.Result) : Decoder × Option Frame :=
  let d := { d with
    parser := result.parser
    checkpoint := result.checkpoint
    position := d.position + result.consumed }
  match result.outcome with
  | .frame f => (d, some f)
  | .blocked => (d, none)
  | .detach _ => ({ d with detachReported := true }, some .detach)

/-- What the next call comes to, and what it leaves ahead. The checkpoint is let go
before the call, which can then add to the output it holds without copying it. -/
def advance (d : Decoder) (ahead : Bytes) : (Decoder × Option Frame) × Bytes :=
  let (working, offset) := d.outset
  let length := d.available
  let d := { d with checkpoint := none }
  let result := d.parser.go (length + 1) working offset ahead
  (d.accept result, ahead.drop (result.consumed - offset))

theorem advance_eq (d : Decoder) (ahead : Bytes) :
    d.advance ahead =
      (d.accept (d.resume ahead), ahead.drop ((d.resume ahead).consumed - d.outset.2)) :=
  rfl

def next (d : Decoder) : Decoder × Option Frame :=
  if d.detachReported then (d, none) else (d.advance d.ahead).1

/-- Up to so many frames by `next`, behind `frames`, last first. -/
def nextFrames : Nat → Decoder → List Frame → Decoder × List Frame
  | 0, d, frames => (d, frames.reverse)
  | rounds + 1, d, frames =>
    match d.next with
    | (d, none) => (d, frames.reverse)
    | (d, some f) => nextFrames rounds d (f :: frames)

/-- The frames of `nextFrames`, where `ahead` is what the next call reads. What it leaves
is what the call behind it reads, so the buffer is gone through once. -/
def drainAhead : Nat → Decoder → Bytes → List Frame → Decoder × List Frame
  | 0, d, _, frames => (d, frames.reverse)
  | rounds + 1, d, ahead, frames =>
    if d.detachReported then (d, frames.reverse)
    else match d.advance ahead with
      | ((d, none), _) => (d, frames.reverse)
      | ((d, some f), left) => drainAhead rounds d left (f :: frames)

/-- Every frame now available. Each takes a byte at least, but for the one that
reports detachment, so the rounds are enough. -/
def drain (d : Decoder) : Decoder × List Frame :=
  drainAhead (d.available + 2) d d.ahead []

theorem ahead_accept {d : Decoder} {f : Frame}
    (found : (d.resume d.ahead).outcome = .frame f) :
    (d.accept (d.resume d.ahead)).1.ahead
      = d.ahead.drop ((d.resume d.ahead).consumed - d.outset.2) := by
  obtain ⟨behind, cleared⟩ := Parser.go_of_frame found
  change d.outset.2 ≤ (d.resume d.ahead).consumed at behind
  change (d.resume d.ahead).checkpoint = none at cleared
  generalize d.resume d.ahead = result at found behind cleared ⊢
  have start : (d.accept result).1.outset.2 = 0 := by
    simp [accept, found, outset, Parser.outset, cleared]
  rw [ahead, start, ahead, unreadFrom_eq, unreadFrom_eq, unread_eq, unread_eq, List.drop_zero,
    List.drop_drop, List.drop_drop, Nat.add_sub_cancel' behind]
  simp [accept, found]

theorem drainAhead_of_reported {d : Decoder} (reported : d.detachReported) (rounds : Nat)
    (ahead : Bytes) (frames : List Frame) :
    drainAhead rounds d ahead frames = (d, frames.reverse) := by
  cases rounds with
  | zero => rfl
  | succ rounds => rw [drainAhead, if_pos reported]

theorem nextFrames_of_reported {d : Decoder} (reported : d.detachReported) (rounds : Nat)
    (frames : List Frame) : nextFrames rounds d frames = (d, frames.reverse) := by
  cases rounds with
  | zero => rfl
  | succ rounds => simp [nextFrames, next, reported]

theorem drainAhead_ahead (rounds : Nat) (d : Decoder) (frames : List Frame) :
    drainAhead rounds d d.ahead frames = nextFrames rounds d frames := by
  induction rounds generalizing d frames with
  | zero => rfl
  | succ rounds ih =>
    rw [drainAhead, nextFrames, next]
    split
    · rfl
    · rw [advance_eq]
      match outcome : (d.resume d.ahead).outcome with
      | .frame f =>
        have step : d.accept (d.resume d.ahead)
            = ((d.accept (d.resume d.ahead)).1, some f) := by simp [accept, outcome]
        dsimp only
        rw [step, ← ahead_accept outcome]
        exact ih _ _
      | .blocked => simp [accept, outcome]
      | .detach v =>
        simp only [accept, outcome]
        rw [drainAhead_of_reported rfl, nextFrames_of_reported rfl]

theorem drain_eq (d : Decoder) : d.drain = nextFrames (d.available + 2) d [] :=
  drainAhead_ahead _ d []

def takeRemaining (d : Decoder) : Decoder × Bytes :=
  ({ d with buffer := #[], position := 0, checkpoint := none }, d.unread)

end Decoder

end TerminalFeed
