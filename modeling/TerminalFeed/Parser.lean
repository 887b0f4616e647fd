import TerminalFeed.Framing

/-!
A parser takes frames from the front of an input one at a time. It commits to
a state only with a frame: a call that runs out of input changes nothing, and
its bytes are offered again, extended, later. A checkpoint keeps what such a
call found out, so that `resume` need not read those bytes twice.
-/

namespace TerminalFeed

open Framing

structure Checkpoint where
  state : State
  offset : Nat
  deriving DecidableEq, Repr

structure Parser where
  state : State
  rules : Rules
  violation : Option Violation
  deriving DecidableEq, Repr

inductive Outcome where
  | frame (f : Frame)
  | blocked
  | detach (v : Violation)
  deriving DecidableEq, Repr

namespace Parser

def new (connection : String) (limits : Limits) : Parser :=
  ⟨.initial, ⟨connection, false, limits⟩, none⟩

/-- A parser for a connection that was greeted before. -/
def recovery (connection : String) (limits : Limits) : Parser :=
  ⟨.ground, ⟨connection, true, limits⟩, none⟩

def hasDetached (p : Parser) : Bool := p.violation.isSome

structure Result where
  parser : Parser
  outcome : Outcome
  consumed : Nat
  checkpoint : Option Checkpoint
  deriving DecidableEq, Repr

def block (p : Parser) (working : State) (offset : Nat) : Result :=
  ⟨p, .blocked, 0, some ⟨working, offset⟩⟩

/-- A violation consumes nothing, since its bytes are the terminal's; a request
is itself a frame and is consumed. -/
def detach (p : Parser) (v : Violation) (reached : Nat) : Result :=
  ⟨{ p with state := .ground, violation := some v }, .detach v,
    if v = .requested then reached else 0, none⟩

/-- Steps over `rest`, which stands `offset` bytes into the input. Each step
but the last takes a byte at least, so one more than the bytes of the input
is enough. -/
def loop (p : Parser) : Nat → State → Nat → Bytes → Result
  | 0, working, offset, _ => p.block working offset
  | steps + 1, working, offset, rest =>
    if rest.isEmpty ∧ 0 < offset then p.block working offset
    else
      let step := transition p.rules working rest
      match step.event with
      | .progress =>
          loop p steps step.state (offset + step.consumed) (rest.drop step.consumed)
      | .frame f =>
          ⟨{ p with state := step.state }, .frame f, offset + step.consumed, none⟩
      | .blocked => p.block step.state offset
      | .detach v => p.detach v (offset + step.consumed)

theorem loop_of_frame {p : Parser} {steps offset : Nat} {working : State} {rest : Bytes}
    {f : Frame} (found : (p.loop steps working offset rest).outcome = .frame f) :
    offset ≤ (p.loop steps working offset rest).consumed ∧
      (p.loop steps working offset rest).checkpoint = none := by
  induction steps generalizing working offset rest with
  | zero => simp [loop, block] at found
  | succ steps ih =>
    rw [loop] at found ⊢
    split at found
    · simp [block] at found
    · rename_i more
      rw [if_neg more]
      dsimp only at found ⊢
      split at found
      · have later := ih found
        exact ⟨by have := later.1; omega, later.2⟩
      · exact ⟨Nat.le_add_right _ _, rfl⟩
      · simp [block] at found
      · simp [detach] at found

def go (p : Parser) (steps : Nat) (working : State) (offset : Nat) (rest : Bytes) : Result :=
  match p.violation with
  | some v => ⟨p, .detach v, 0, none⟩
  | none => p.loop steps working offset rest

theorem go_of_frame {p : Parser} {steps offset : Nat} {working : State} {rest : Bytes}
    {f : Frame} (found : (p.go steps working offset rest).outcome = .frame f) :
    offset ≤ (p.go steps working offset rest).consumed ∧
      (p.go steps working offset rest).checkpoint = none := by
  unfold go at found ⊢
  split at found
  · cases found
  · exact loop_of_frame found

/-- Where a call on an input of some length starts. A checkpoint past the end of
the input is void. -/
def outset (p : Parser) (length : Nat) (checkpoint : Option Checkpoint) : State × Nat :=
  match checkpoint.filter (·.offset ≤ length) with
  | none => (p.state, 0)
  | some c => (c.state, c.offset)

def handle (p : Parser) (input : Bytes) : Result := p.go (input.length + 1) p.state 0 input

/-- Like `handle`, from a checkpoint that was taken over the front of the
input. -/
def resume (p : Parser) (input : Bytes) (checkpoint : Option Checkpoint) : Result :=
  let (working, offset) := p.outset input.length checkpoint
  p.go (input.length + 1) working offset (input.drop offset)

end Parser

end TerminalFeed
