import TerminalFeed.Proofs.Preemption
import TerminalFeed.Scheduler.Scheduler

/-!
Delivery slots are conserved. A slot is in the pool, in the hands of a producer that has
yet to send its batch, or attached to a batch that has not reached its lane; whatever
happens to a scheduler, it is in one of these places.
-/

namespace TerminalFeed

variable {α κ ε : Type}

def Event.freesSlot : Event α κ → Bool
  | .slotFreed => true
  | _ => false

def Move.isSend : Move α κ → Bool
  | .send _ => true
  | _ => false

def Moment.slotsSent (moment : Moment α κ) : Nat := moment.message.countP Message.holdsSlot

def Moment.slotsFreed (moment : Moment α κ) : Nat := moment.events.countP Event.freesSlot

namespace Executor

def attached (x : Executor α κ) : Nat := (x.mailbox ++ x.stash).countP Message.holdsSlot

variable {x y : Executor α κ} {m : Move α κ} {events : List (Event α κ)}

theorem freed_handle (x : Executor α κ) (n : Message α κ) :
    (x.handle n).2.countP Event.freesSlot = [n].countP Message.holdsSlot := by
  cases n with
  | deliver batch lane slot =>
    cases nothing : batch.isNothing <;> cases slot <;>
      simp [handle, enqueue_eq, nothing, Event.freesSlot, Message.holdsSlot]
  | _ => simp [handle, Event.freesSlot, Message.holdsSlot]

theorem freed_stop (x : Executor α κ) : x.stop.2.countP Event.freesSlot = x.attached := by
  have each (held : List (Message α κ)) :
      (held.map fun _ => (.slotFreed : Event α κ)).countP Event.freesSlot = held.length := by
    rw [List.countP_map]
    exact List.countP_eq_length.mpr fun _ _ => rfl
  rw [stop, List.countP_append, each, attached, ← List.countP_eq_length_filter]
  rfl

theorem attached_step (step : Step x m events y) :
    x.attached + Moment.slotsSent ⟨x, m, events, y⟩ =
      Moment.slotsFreed ⟨x, m, events, y⟩ + y.attached := by
  cases step with
  | sent running =>
    simp [attached, Moment.slotsSent, Moment.slotsFreed, Moment.message, List.countP_cons]
    omega
  | woken stage mailbox | absorbed stage mailbox passes =>
    rw [Moment.slotsFreed, freed_handle, attached, attached, mailbox_handle, stash_handle]
    simp [Moment.slotsSent, Moment.message, mailbox, List.countP_cons]
    omega
  | handedOver stage stash =>
    rw [Moment.slotsFreed, freed_handle, attached, attached, mailbox_handle, stash_handle]
    simp [Moment.slotsSent, Moment.message, stash, List.countP_cons]
    omega
  | stashed stage mailbox barred behind =>
    simp [attached, Moment.slotsSent, Moment.slotsFreed, Moment.message, mailbox,
      List.countP_cons]
    omega
  | @added lane batch running =>
    rw [← handle_eq_enqueue, Moment.slotsFreed, freed_handle, attached, attached, mailbox_handle,
      stash_handle]
    simp [Moment.slotsSent, Moment.message, Message.holdsSlot]
  | shutDown shutdown stage | failed running =>
    rw [Moment.slotsFreed, freed_stop]
    simp [Moment.slotsSent, Moment.message, stop, attached]
  | @passHalted around handled stage halted | @passDone around handled stage halted empty =>
    cases handled <;>
      simp [attached, Moment.slotsSent, Moment.slotsFreed, Moment.message, closePass,
        Event.freesSlot]
  | _ =>
    simp [attached, Moment.slotsSent, Moment.slotsFreed, Moment.message, startPass, putBack,
      Event.freesSlot]

theorem attached_send? {n : Message α κ} (sent : x.send? n = some y) :
    y.attached = x.attached + [n].countP Message.holdsSlot := by
  have step : Step x (.send n) [] y := step_of_move? (by simp [move?, sent])
  simpa [Moment.slotsSent, Moment.slotsFreed, Moment.message] using (attached_step step).symm

end Executor

namespace Scheduler

def allSlots (s : Scheduler α κ ε) : Nat :=
  s.slots.available + s.inHand + s.executor.attached

/-- What can happen to a scheduler, whoever does it. A producer may take its slot, send
its batch and be refused in one go, or let others act in between; one that blocks waits
in line, or is yet to ask for its slot. -/
inductive Turn (s : Scheduler α κ ε) : Scheduler α κ ε → Prop
  | takes : Turn s s.takeSlot.2
  | sends {batch : Batch α} {lane : Lane} (held : 0 < s.inHand) :
      Turn s (s.sendHeld batch lane).1
  | givesUp (held : 0 < s.inHand) : Turn s { s with inHand := s.inHand - 1 }.freeSlot.1
  | submits {batch : Batch α} {lane : Lane} {needsSlot : Bool} :
      Turn s (s.submit batch lane needsSlot).1
  | waits {id : String} {batch : Batch α} : Turn s (s.submitWaiting id batch).1
  | leave {waiters : List (Waiter α)} (left : waiters.Sublist s.waiters) :
      Turn s { s with waiters := waiters }
  | message {m : Message α κ} (slotless : m.holdsSlot = false) : Turn s (s.send m).1
  | acts {m : Move α κ} {x : Executor α κ} {events : List (Event α κ)}
      (inside : m.isSend = false) (made : s.executor.move? m = some (x, events)) :
      Turn s (s.act fun _ => (x, events)).1
  | closes : Turn s { s with slots := s.slots.close, waiters := [] }
  | shutsDown : Turn s s.shutDown.1
  | dropsHandle : Turn s s.dropHandle.1
  | sets {handler : Option Nat} {effects : EffectQueue ε} :
      Turn s { s with slots := s.slots.setHandler handler, effects := effects }

inductive Reachable (capacity : Nat) : Scheduler α κ ε → Prop
  | new : Reachable capacity (.ofCapacity capacity)
  | turn {s s' : Scheduler α κ ε} (reached : Reachable capacity s) (turn : Turn s s') :
      Reachable capacity s'

theorem freeSlot_of_idle (s : Scheduler α κ ε) (idle : s.waiters = [] ∨ s.executor.hasEnded) :
    s.freeSlot.1 = { s with slots := s.slots.release.1, waiters := [] } := by
  rcases idle with none | gone
  · rw [freeSlot, none]
    rfl
  · rw [freeSlot]
    generalize s.waiters = waiting
    induction waiting with
    | nil => rfl
    | cons w rest ih => simpa [returnSlot, Executor.send?, gone] using ih

theorem sendHeld_cases (s : Scheduler α κ ε) (batch : Batch α) (lane : Lane) :
    (∃ x, s.executor.send? (.deliver batch lane true) = some x ∧
        s.sendHeld batch lane =
          ({ s with inHand := s.inHand - 1, executor := x }, [], .sent)) ∨
      s.executor.hasEnded ∧ (s.sendHeld batch lane).1 =
        { s with inHand := s.inHand - 1, slots := s.slots.release.1, waiters := [] } := by
  cases outcome : s.executor.send? (.deliver batch lane true) with
  | some x => exact .inl ⟨x, rfl, by simp [sendHeld, outcome]⟩
  | none =>
    have gone : s.executor.hasEnded := by simpa [Executor.send?] using outcome
    refine .inr ⟨gone, ?_⟩
    have back := freeSlot_of_idle { s with inHand := s.inHand - 1 } (.inr gone)
    simpa [sendHeld, outcome] using back

theorem submit_cases (s : Scheduler α κ ε) (batch : Batch α) (lane : Lane) :
    (∃ slots, s.slots.acquire = .granted slots ∧
        s.submit batch lane true =
          ({ s with slots := slots, inHand := s.inHand + 1 } : Scheduler α κ ε).sendHeld
            batch lane) ∨
      s.slots.acquire = .refused ∧ s.submit batch lane true = (s, [], .refused) ∨
      s.slots.acquire = .wait ∧ s.submit batch lane true = (s, [], .wait) := by
  cases outcome : s.slots.acquire with
  | granted slots => exact .inl ⟨slots, rfl, by simp [submit, takeSlot, outcome]⟩
  | refused => exact .inr (.inl ⟨rfl, by simp [submit, takeSlot, outcome]⟩)
  | wait => exact .inr (.inr ⟨rfl, by simp [submit, takeSlot, outcome]⟩)

/-- What a part of a turn may do: it gives some slots back, the capacity stays, and the
executor only makes moves. -/
structure Returns (returned : Nat) (s s' : Scheduler α κ ε) : Prop where
  all : s'.allSlots = s.allSlots + returned
  capacity : s'.slots.capacity = s.slots.capacity
  runs : (∃ history, Run history s.executor) → ∃ history, Run history s'.executor

namespace Returns

variable {s s' s'' : Scheduler α κ ε} {m n : Nat}

theorem refl (s : Scheduler α κ ε) : Returns 0 s s := ⟨rfl, rfl, id⟩

theorem trans (first : Returns m s s') (second : Returns n s' s'') : Returns (m + n) s s'' := by
  refine ⟨?_, second.capacity.trans first.capacity, second.runs ∘ first.runs⟩
  rw [second.all, first.all, Nat.add_assoc]

theorem ofHand (put : Returns 1 { s with inHand := s.inHand - 1 } s') (held : 0 < s.inHand) :
    Returns 0 s s' := by
  obtain ⟨all, capacity, runs⟩ := put
  refine ⟨?_, capacity, runs⟩
  simp only [allSlots] at all ⊢
  omega

theorem sent {x : Executor α κ} {message : Message α κ}
    (sent : s.executor.send? message = some x) :
    Returns ([message].countP Message.holdsSlot) s { s with executor := x } := by
  refine ⟨?_, rfl, ?_⟩
  · simp only [allSlots, Executor.attached_send? sent]
    omega
  · rintro ⟨history, run⟩
    have made : s.executor.move? (.send message) = some (x, []) := by
      simp [Executor.move?, sent]
    exact ⟨_, run.move made⟩

theorem returnSlot (s : Scheduler α κ ε) (waiting : List (Waiter α)) :
    Returns 1 s (s.returnSlot waiting).1 := by
  induction waiting generalizing s with
  | nil =>
    refine ⟨?_, rfl, id⟩
    simp only [Scheduler.returnSlot, allSlots, s.slots.exactCount.returned]
    omega
  | cons w rest ih =>
    cases outcome : s.executor.send? (.deliver w.batch .normal true) with
    | some x =>
      obtain ⟨all, capacity, runs⟩ := sent outcome
      simp only [Scheduler.returnSlot, outcome]
      exact ⟨all, capacity, runs⟩
    | none =>
      simp only [Scheduler.returnSlot, outcome]
      exact ih s

theorem freeSlot (s : Scheduler α κ ε) : Returns 1 s s.freeSlot.1 :=
  returnSlot s s.waiters

theorem settle (s : Scheduler α κ ε) (events : List (Event α κ)) :
    Returns (events.countP Event.freesSlot) s (s.settle events).1 := by
  induction events generalizing s with
  | nil => exact refl s
  | cons e rest ih =>
    cases e with
    | slotFreed =>
      rw [List.countP_cons, Nat.add_comm]
      exact (freeSlot s).trans (ih s.freeSlot.1)
    | _ => exact ih s

theorem act {m : Move α κ} {x : Executor α κ} {events : List (Event α κ)}
    (inside : m.isSend = false) (made : s.executor.move? m = some (x, events)) :
    Returns 0 s (s.act fun _ => (x, events)).1 := by
  obtain ⟨all, capacity, runs⟩ := settle { s with executor := x } events
  have slots : s.executor.attached = events.countP Event.freesSlot + x.attached := by
    have moved := Executor.attached_step (Executor.step_of_move? made)
    cases m with
    | send m => cases inside
    | _ => simpa [Moment.slotsSent, Moment.slotsFreed, Moment.message] using moved
  refine ⟨?_, capacity, ?_⟩
  · simp only [allSlots] at all
    simp only [allSlots, Scheduler.act, slots]
    omega
  · rintro ⟨history, run⟩
    exact runs ⟨_, run.move made⟩

theorem send {m : Message α κ} (slotless : m.holdsSlot = false) : Returns 0 s (s.send m).1 := by
  unfold Scheduler.send
  cases outcome : s.executor.send? m with
  | some x => simpa [slotless] using sent outcome
  | none => exact refl s

theorem takeSlot (s : Scheduler α κ ε) : Returns 0 s s.takeSlot.2 := by
  unfold Scheduler.takeSlot
  cases outcome : s.slots.acquire with
  | granted slots =>
    obtain ⟨-, positive, rfl⟩ := (s.slots.exactCount.granted _).mp outcome
    refine ⟨?_, rfl, id⟩
    simp only [allSlots]
    omega
  | refused | wait => exact refl s

theorem sendHeld (held : 0 < s.inHand) (batch : Batch α) (lane : Lane) :
    Returns 0 s (s.sendHeld batch lane).1 := by
  apply ofHand _ held
  rcases sendHeld_cases s batch lane with ⟨x, outcome, same⟩ | ⟨-, same⟩
  · have sent : ({ s with inHand := s.inHand - 1 } : Scheduler α κ ε).executor.send?
        (.deliver batch lane true) = some x := outcome
    rw [same]
    exact Returns.sent sent
  · rw [same]
    refine ⟨?_, rfl, id⟩
    simp only [allSlots, s.slots.exactCount.returned]
    omega

theorem submit (s : Scheduler α κ ε) (batch : Batch α) (lane : Lane) (needsSlot : Bool) :
    Returns 0 s (s.submit batch lane needsSlot).1 := by
  cases needsSlot with
  | false => exact send rfl
  | true =>
    rcases submit_cases s batch lane with ⟨slots, granted, same⟩ | ⟨-, same⟩ | ⟨-, same⟩
    · have taken := takeSlot s
      simp only [Scheduler.takeSlot, granted] at taken
      rw [same]
      exact taken.trans (sendHeld (Nat.succ_pos _) batch lane)
    · rw [same]
      exact refl s
    · rw [same]
      exact refl s

theorem submitWaiting (s : Scheduler α κ ε) (id : String) (batch : Batch α) :
    Returns 0 s (s.submitWaiting id batch).1 := by
  have submitted := submit s batch .normal true
  unfold Scheduler.submitWaiting
  split
  all_goals
    rename_i outcome
    rw [outcome] at submitted
  · exact submitted
  · exact submitted
  · exact ⟨submitted.all, submitted.capacity, submitted.runs⟩

theorem shutDown (s : Scheduler α κ ε) : Returns 0 s s.shutDown.1 := by
  obtain ⟨all, capacity, runs⟩ : Returns 0 s (s.send .shutdown).1 := send rfl
  exact ⟨all, capacity, runs⟩

theorem turn (turn : Turn s s') : Returns 0 s s' := by
  cases turn with
  | takes => exact takeSlot s
  | sends held => exact sendHeld held _ _
  | givesUp held => exact (freeSlot _).ofHand held
  | submits => exact submit s _ _ _
  | waits => exact submitWaiting s _ _
  | message slotless => exact send slotless
  | acts inside made => exact act inside made
  | leave | closes | sets => exact ⟨rfl, rfl, id⟩
  | shutsDown => exact shutDown s
  | dropsHandle =>
    obtain ⟨all, capacity, runs⟩ := shutDown { s with hasHandle := false }
    exact ⟨all, capacity, runs⟩

end Returns

theorem Reachable.returns {capacity : Nat} {s : Scheduler α κ ε} (reached : Reachable capacity s) :
    Returns 0 (.ofCapacity capacity) s := by
  induction reached with
  | new => exact .refl _
  | turn reached turn ih => exact ih.trans (.turn turn)

end Scheduler

namespace Scheduler

end Scheduler

end TerminalFeed
