/-!
Side effects wait for the thread that flushes them. A flush syncs once, runs
every effect in order, those that are added meanwhile included, and delivers
the flag bits last. A flush inside a flush does nothing.
-/

namespace TerminalFeed

inductive Urgency where
  | deferred
  | immediate
  deriving DecidableEq, Repr

def Urgency.rank : Urgency → Nat
  | .deferred => 1
  | .immediate => 2

structure EffectQueue (ε : Type) where
  queued : List ε
  flags : UInt64
  requested : Option Urgency
  flushing : Bool
  notified : Bool

namespace EffectQueue

variable {ε : Type}

def empty : EffectQueue ε := ⟨[], 0, none, false, false⟩

def level (queue : EffectQueue ε) : Nat :=
  match queue.requested with
  | none => 0
  | some urgency => urgency.rank

/-- Asks for a flush, with the notification to send. A request that is no more
urgent than an earlier one is already known. -/
def request (queue : EffectQueue ε) (urgency : Urgency) :
    EffectQueue ε × Option Urgency :=
  if urgency.rank ≤ queue.level then (queue, none)
  else ({ queue with requested := some urgency },
    if queue.notified then some urgency else none)

def push (queue : EffectQueue ε) (effect : ε) (urgency : Urgency) :
    EffectQueue ε × Option Urgency :=
  { queue with queued := queue.queued ++ [effect] }.request urgency

/-- Bits that are all set already ask for nothing. -/
def setFlags (queue : EffectQueue ε) (bits : UInt64) : EffectQueue ε × Option Urgency :=
  let after := { queue with flags := queue.flags ||| bits }
  if queue.flags &&& bits = bits then (after, none) else after.request .deferred

def setNotified (queue : EffectQueue ε) (on : Bool) : EffectQueue ε :=
  { queue with notified := on }

/-- How far a flush has come: how many effects it has run, and whether it has
synced. -/
inductive Flush where
  | running (ran : Nat) (synced : Bool)
  | delivered (ran : Nat)
  | done (ran : Nat)
  deriving DecidableEq, Repr

inductive FlushAction (ε : Type) where
  | sync
  | run (effect : ε)
  | deliver (flags : UInt64)

def begin? (queue : EffectQueue ε) : Option (EffectQueue ε × Flush) :=
  if queue.flushing then none
  else some ({ queue with flushing := true, requested := none }, .running 0 false)

/-- The next part of a flush. Between two parts the queue is open to whatever
the effect or the flag handler does. -/
def flushStep (queue : EffectQueue ε) :
    Flush → EffectQueue ε × Flush × List (FlushAction ε)
  | .running ran synced =>
    let sync : List (FlushAction ε) := if synced then [] else [.sync]
    match queue.queued with
    | effect :: rest =>
        ({ queue with queued := rest }, .running (ran + 1) true, sync ++ [.run effect])
    | [] =>
      if queue.flags = 0 then (queue, .delivered ran, [])
      else ({ queue with flags := 0 }, .delivered ran, sync ++ [.deliver queue.flags])
  | .delivered ran => ({ queue with flushing := false }, .done ran, [])
  | .done ran => (queue, .done ran, [])

/-- Ends a flush whose effect failed; the effects behind it stay queued. -/
def abandon (queue : EffectQueue ε) : EffectQueue ε :=
  { queue with flushing := false }

theorem level_request (queue : EffectQueue ε) (urgency : Urgency) :
    (queue.request urgency).1.level = max queue.level urgency.rank := by
  unfold request
  split
  · exact (Nat.max_eq_left ‹_›).symm
  · exact (Nat.max_eq_right (Nat.le_of_not_le ‹_›)).symm

/-- A notification is sent just when the level rises, and names the new one. -/
theorem request_told_iff (queue : EffectQueue ε) (urgency told : Urgency) :
    (queue.request urgency).2 = some told ↔
      told = urgency ∧ queue.notified = true ∧ queue.level < urgency.rank := by
  unfold request
  split
  · simp; omega
  · cases queue.notified <;> simp_all [eq_comm]

theorem request_fst (queue : EffectQueue ε) (urgency : Urgency) :
    ∃ asked, (queue.request urgency).1 = { queue with requested := asked } := by
  unfold request
  split
  · exact ⟨queue.requested, rfl⟩
  · exact ⟨some urgency, rfl⟩

theorem push_fst (queue : EffectQueue ε) (effect : ε) (urgency : Urgency) :
    ∃ asked, (queue.push effect urgency).1 =
      { queue with queued := queue.queued ++ [effect], requested := asked } :=
  request_fst _ urgency

theorem setFlags_fst (queue : EffectQueue ε) (bits : UInt64) :
    ∃ asked, (queue.setFlags bits).1 =
      { queue with flags := queue.flags ||| bits, requested := asked } := by
  unfold setFlags
  dsimp only
  split
  · exact ⟨queue.requested, rfl⟩
  · exact request_fst _ _

end EffectQueue

end TerminalFeed
