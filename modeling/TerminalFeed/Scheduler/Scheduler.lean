import TerminalFeed.Scheduler.Effects
import TerminalFeed.Scheduler.Executor
import TerminalFeed.Scheduler.Slots

/-!
One scheduler: an executor, the pool of delivery slots in front of it, and the
side effects that its code leaves for another thread. A slot that is given
back while producers wait goes to the first of them.
-/

namespace TerminalFeed

structure Waiter (α : Type) where
  id : String
  batch : Batch α

structure Scheduler (α κ ε : Type) where
  executor : Executor α κ
  slots : SlotPool
  -- Slots held by producers that have not sent their batch yet.
  inHand : Nat
  waiters : List (Waiter α)
  effects : EffectQueue ε
  hasHandle : Bool

inductive Happening (α κ : Type) where
  | executor (event : Event α κ)
  | slotReleased (handler : Nat)
  | submitted (id : String) (accepted : Bool)

inductive Submission where
  | sent
  | refused
  | wait
  deriving DecidableEq, Repr

namespace Scheduler

variable {α κ ε : Type}

def ofCapacity (capacity : Nat) : Scheduler α κ ε :=
  ⟨.new, .ofCapacity capacity, 0, [], .empty, true⟩

def shutdownMessage : String := "Scheduler executor has shut down"

def handlerCall : Option Nat → List (Happening α κ)
  | some handler => [.slotReleased handler]
  | none => []

/-- Gives a slot back to the producers `waiting`, or to the pool. A producer
that finds the executor gone gives it back in turn. -/
def returnSlot (s : Scheduler α κ ε) :
    List (Waiter α) → Scheduler α κ ε × List (Happening α κ)
  | [] =>
    let (slots, handler) := s.slots.release
    ({ s with slots := slots, waiters := [] }, handlerCall handler)
  | w :: rest =>
    let told := handlerCall s.slots.released
    match s.executor.send? (.deliver w.batch .normal true) with
    | some x =>
        ({ s with executor := x, waiters := rest }, told ++ [.submitted w.id true])
    | none =>
        let (s, more) := s.returnSlot rest
        (s, told ++ .submitted w.id false :: more)

def freeSlot (s : Scheduler α κ ε) : Scheduler α κ ε × List (Happening α κ) :=
  s.returnSlot s.waiters

def takeSlot (s : Scheduler α κ ε) : SlotPool.Acquisition × Scheduler α κ ε :=
  match s.slots.acquire with
  | .granted slots =>
      (.granted slots, { s with slots := slots, inHand := s.inHand + 1 })
  | refusal => (refusal, s)

def sendHeld (s : Scheduler α κ ε) (batch : Batch α) (lane : Lane) :
    Scheduler α κ ε × List (Happening α κ) × Submission :=
  let s := { s with inHand := s.inHand - 1 }
  match s.executor.send? (.deliver batch lane true) with
  | some x => ({ s with executor := x }, [], .sent)
  | none =>
    let (s, told) := s.freeSlot
    (s, told, .refused)

def send (s : Scheduler α κ ε) (m : Message α κ) : Scheduler α κ ε × Submission :=
  match s.executor.send? m with
  | some x => ({ s with executor := x }, .sent)
  | none => (s, .refused)

def submit (s : Scheduler α κ ε) (batch : Batch α) (lane : Lane) (needsSlot : Bool) :
    Scheduler α κ ε × List (Happening α κ) × Submission :=
  if needsSlot then
    match s.takeSlot with
    | (.granted _, s) => s.sendHeld batch lane
    | (.refused, s) => (s, [], .refused)
    | (.wait, s) => (s, [], .wait)
  else
    let (s, outcome) := s.send (.deliver batch lane false)
    (s, [], outcome)

def submitWaiting (s : Scheduler α κ ε) (id : String) (batch : Batch α) :
    Scheduler α κ ε × List (Happening α κ) :=
  match s.submit batch .normal true with
  | (s, told, .sent) => (s, told ++ [.submitted id true])
  | (s, told, .refused) => (s, told ++ [.submitted id false])
  | (s, told, .wait) => ({ s with waiters := s.waiters ++ [⟨id, batch⟩] }, told)

def shutDown (s : Scheduler α κ ε) : Scheduler α κ ε × List (Happening α κ) :=
  let (s, _) := s.send .shutdown
  ({ s with slots := s.slots.close, waiters := [] },
    s.waiters.map fun w => .submitted w.id false)

def dropHandle (s : Scheduler α κ ε) : Scheduler α κ ε × List (Happening α κ) :=
  { s with hasHandle := false }.shutDown

def settle (s : Scheduler α κ ε) :
    List (Event α κ) → Scheduler α κ ε × List (Happening α κ)
  | [] => (s, [])
  | .slotFreed :: rest =>
    let (s, told) := s.freeSlot
    let (s, more) := s.settle rest
    (s, .executor .slotFreed :: told ++ more)
  | event :: rest =>
    let (s, more) := s.settle rest
    (s, .executor event :: more)

def act (s : Scheduler α κ ε)
    (act : Executor α κ → Executor α κ × List (Event α κ)) :
    Scheduler α κ ε × List (Happening α κ) :=
  let (x, events) := act s.executor
  { s with executor := x }.settle events

def describe (s : Scheduler α κ ε) (pauses : Nat) : String :=
  "Scheduler \x7b slots: " ++ s.slots.describe ++ ", pause_count: "
    ++ toString pauses ++ " \x7d"

end Scheduler

end TerminalFeed
