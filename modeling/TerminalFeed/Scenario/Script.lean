import TerminalFeed.Scheduler.Scheduler

/-!
Scripts for schedulers. A token or task is a list of actions, which act on the
executor that runs them; operations go through a scheduler's handle, from any
thread.
-/

namespace TerminalFeed.Scenario

mutual

inductive Action where
  | log (text : String)
  | add (lane : Lane) (tokens : List TokenSpec) (byteLength : Nat)
  | task (name : String) (acts : List Action)
  | pause (id : String)
  | effect (urgency : Urgency) (name : String) (ops : List Op)
  | flag (bits : UInt64)
  | rollBack
  | state
  | ops (ops : List Op)
  -- Operations on another thread, while this code waits for it.
  | elsewhere (ops : List Op)
  | dropHandle
  -- An action for the first runs of a token only.
  | firstRuns (runs : Nat) (act : Action)

inductive TokenSpec where
  | scripted (name : String) (acts : List Action)
  | frame (f : Frame)

/-- An operation on a scheduler's handle, by default that of the script. -/
inductive Op where
  | mk (target : Option Nat) (verb : Verb)

inductive Verb where
  | add (lane : Lane) (tokens : List TokenSpec) (byteLength : Nat)
  | addAsync (lane : Lane) (tokens : List TokenSpec) (byteLength : Nat)
  -- Adds from a thread of its own, which may wait for a slot.
  | spawnAdd (id : String) (lane : Lane) (tokens : List TokenSpec) (byteLength : Nat)
  | join (id : String)
  | schedule
  | discardAll
  | task (name : String) (acts : List Action)
  | perform (name : String) (acts : List Action)
  | whilePaused (ops : List Op)
  | effect (urgency : Urgency) (name : String) (ops : List Op)
  | flag (bits : UInt64)
  | flush
  | fail (text : String)
  | notifier (on : Bool)
  | releaseHandler (on : Bool)
  | shutdown
  | status
  | describe
  | release (id : String)
  | dropToken (id : String)
  | globalPause (id : String)
  | answers (holding discardHigh discardNormal : Option Bool)

end

instance : Inhabited Action := ⟨.state⟩

instance : Inhabited TokenSpec := ⟨.frame .detach⟩

instance : Inhabited Op := ⟨.mk none .status⟩

def Op.verb : Op → Verb
  | .mk _ verb => verb

structure Status where
  slots : Nat
  congestion : Congestion
  pauses : Nat
  paused : Bool

inductive Result where
  | ok
  | nothing
  | shutdown
  | wouldBlock
  | noHandle
  | noToken
  | count (n : Nat)
  | text (s : String)
  | failed (message : String)
  | status (s : Status)

inductive Note where
  | executed (name : String)
  | executedFrame (f : Frame)
  | willEnqueue (byteLength : Nat)
  | didExecute (byteLength : Nat)
  | didHandleInput
  | syncState
  | flags (bits : UInt64)
  | task (name : String)
  | effect (name : String)
  | text (s : String)
  | notify (urgency : Urgency)
  | slotReleased
  | state (executing paused : Bool) (high normal : Nat)
  | result (op : Op) (r : Result)

structure Entry where
  scheduler : Nat
  note : Note

/-- A token of a scripted terminal. The serial number tells tokens of one
script apart. -/
structure ScriptToken where
  serial : Nat
  name : String
  acts : List Action

inductive Code where
  | script (name : String) (acts : List Action)
  | gate

structure Effect where
  name : String
  ops : List Op

abbrev Seat := Scheduler (Token ScriptToken) Code Effect

end TerminalFeed.Scenario
