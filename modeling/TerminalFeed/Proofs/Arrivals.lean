import TerminalFeed.Proofs.Runs

/-!
Messages are handled in the order in which they were sent, but for those that
may overtake a perform. Within a lane nothing is overtaken: either all its
batches may overtake, or none.
-/

namespace TerminalFeed

variable {α κ : Type}

def Message.bound (lane : Lane) : Message α κ → List (Batch α)
  | .deliver batch other _ => if other = lane ∧ batch.isNothing = false then [batch] else []
  | _ => []

namespace Moment

def sent (lane : Lane) (moment : Moment α κ) : List (Batch α) :=
  match moment.move with
  | .send m => m.bound lane
  | _ => []

def delivered (lane : Lane) (moment : Moment α κ) : List (Batch α) :=
  match moment.move with
  | .tick _ => moment.entered lane
  | _ => []

end Moment

namespace Executor

variable {x y : Executor α κ} {m : Move α κ} {events : List (Event α κ)}

structure Queued (x : Executor α κ) : Prop where
  behind : ∀ m ∈ x.stash, m.overtakes = false
  barrier : x.stash ≠ [] → x.pending = [] → x.stage = .perform ∨ x.stage = .releasing
  waiting : x.stage = .waiting → x.pending = []

theorem Queued.new : (new : Executor α κ).Queued :=
  ⟨nofun, fun stashed => absurd rfl stashed, fun _ => rfl⟩

theorem Queued.stash_waiting {x : Executor α κ} (queued : x.Queued) (stage : x.stage = .waiting) :
    x.stash = [] := by
  cases stash : x.stash with
  | nil => rfl
  | cons m rest =>
    have stashed : x.stash ≠ [] := by simp [stash]
    rcases queued.barrier stashed (queued.waiting stage) with impossible | impossible <;>
      simp [stage] at impossible

theorem Queued.kept {x y : Executor α κ} (queued : x.Queued) (stash : y.stash = x.stash)
    (pending : y.pending = x.pending)
    (stays : x.stage = .perform ∨ x.stage = .releasing →
      y.stage = .perform ∨ y.stage = .releasing)
    (rests : y.stage = .waiting → x.stage = .waiting) : y.Queued := by
  constructor
  · rw [stash]
    exact queued.behind
  · rw [stash, pending]
    intro stashed none
    exact stays (queued.barrier stashed none)
  · rw [pending]
    intro stage
    exact queued.waiting (rests stage)

theorem queued_handle {x : Executor α κ} (queued : x.Queued) (m : Message α κ)
    (busy : x.stage ≠ .waiting) : (x.handle m).1.Queued := by
  constructor
  · rw [stash_handle]
    exact queued.behind
  · rw [stash_handle, pending_handle, stage_handle]
    intro stashed none
    exact queued.barrier stashed none.1
  · rw [stage_handle]
    intro stage
    exact absurd stage busy

theorem queued_stop (x : Executor α κ) : x.stop.1.Queued := by
  constructor
  · intro held member
    cases member
  · intro stashed
    exact absurd rfl stashed
  · intro waits
    cases waits

theorem queued_step (step : Step x m events y) (queued : x.Queued) : y.Queued := by
  -- The stash grows only while a perform is pending, and the last one that is
  -- pending runs right before the stash is handed over.
  cases step with
  | woken stage mailbox =>
    apply queued_handle
    · exact ⟨queued.behind, fun stashed => absurd (queued.stash_waiting stage) stashed, by simp⟩
    · simp
  | absorbed stage mailbox passes =>
    apply queued_handle
    · exact queued.kept rfl rfl id id
    · simp [stage]
  | @stashed around next m rest stage mailbox barred behind =>
    refine ⟨?_, ?_, queued.waiting⟩
    · intro other member
      rcases List.mem_append.mp member with old | new
      · exact queued.behind other old
      · rwa [List.mem_singleton.mp new]
    · intro _ none
      have stashed : x.stash ≠ [] := by
        intro empty
        have pending : x.pending = [] := none
        simp [Executor.barred, pending, empty] at barred
      exact queued.barrier stashed none
  | @handedOver around m rest stage stash =>
    constructor
    · rw [stash_handle]
      intro other member
      exact queued.behind other (by rw [stash]; exact .tail _ member)
    · rw [pending_handle, stage_handle]
      intro _ none
      simp [none.2]
    · rw [stage_handle]
      cases m <;> simp [Message.isPerform]
  | added running =>
    rw [enqueue_eq]
    split <;> exact queued.kept rfl rfl id id
  | performStarted stage pending shutdown =>
    exact ⟨queued.behind, fun _ _ => .inl rfl, by simp⟩
  | performReturned stage =>
    refine ⟨queued.behind, ?_, ?_⟩
    · intro _ none
      exact .inr (by simpa using none)
    · cases x.pending <;> simp
  | released stage stash =>
    exact ⟨queued.behind, fun stashed => absurd stash stashed, by simp⟩
  | rested stage pending shutdown =>
    exact ⟨queued.behind, by simpa [stage] using queued.barrier, fun _ => pending⟩
  | shutDown shutdown stage | failed running => exact queued_stop x
  | _ =>
    refine queued.kept rfl rfl ?_ ?_
    · simp [putBack, startPass, closePass, *]
    · simp [putBack, startPass, closePass, *]

/-- The batches for a lane that have not reached it, those in the stash first. -/
def undelivered (x : Executor α κ) (lane : Lane) : List (Batch α) :=
  (x.stash ++ x.mailbox).flatMap (Message.bound lane)

theorem entering_handle (x : Executor α κ) (lane : Lane) (m : Message α κ) :
    (x.handle m).2.flatMap (Event.entering lane) = m.bound lane := by
  cases m with
  | deliver batch other slot =>
    have entered := entering_enqueue x lane other batch
    cases slot <;> simpa [handle, Message.bound, Event.entering] using entered
  | _ => simp [handle, Message.bound, Event.entering]

theorem undelivered_handle (x : Executor α κ) (m : Message α κ) (lane : Lane) :
    (x.handle m).1.undelivered lane = x.undelivered lane := by
  rw [undelivered, stash_handle, mailbox_handle, undelivered]

theorem Queued.bound_comm {x : Executor α κ} (queued : x.Queued) {m : Message α κ}
    (passes : x.barred → m.overtakes) (lane : Lane) :
    m.bound lane ++ x.stash.flatMap (Message.bound lane) =
      x.stash.flatMap (Message.bound lane) ++ m.bound lane := by
  cases stash : x.stash with
  | nil => simp
  | cons first rest =>
    -- What overtakes the stash is of the high lane, and nothing in the stash is.
    have ahead : m.overtakes := passes (by simp [barred, stash])
    cases lane with
    | normal =>
      have elsewhere : m.bound .normal = [] := by
        cases m with
        | deliver batch other slot => cases other <;> simp_all [Message.overtakes, Message.bound]
        | _ => rfl
      rw [elsewhere, List.nil_append, List.append_nil]
    | high =>
      have none : x.stash.flatMap (Message.bound .high) = [] := by
        apply List.flatMap_eq_nil_iff.mpr
        intro held member
        have waits := queued.behind held member
        cases held with
        | deliver batch other slot => cases other <;> simp_all [Message.overtakes, Message.bound]
        | _ => rfl
      rw [← stash, none, List.nil_append, List.append_nil]

theorem arrivals_step (step : Step x m events y) (running : y.hasEnded = false) (queued : x.Queued)
    (lane : Lane) :
    x.undelivered lane ++ Moment.sent lane ⟨x, m, events, y⟩ =
      Moment.delivered lane ⟨x, m, events, y⟩ ++ y.undelivered lane := by
  cases step with
  | woken stage mailbox =>
    have stash := queued.stash_waiting stage
    rw [undelivered_handle]
    simp [Moment.sent, Moment.delivered, Moment.entered, entering_handle, undelivered, stash,
      mailbox]
  | absorbed stage mailbox passes =>
    have comm := queued.bound_comm passes lane
    rw [undelivered_handle]
    simp [Moment.sent, Moment.delivered, Moment.entered, entering_handle, undelivered, mailbox,
      ← List.append_assoc, comm]
  | handedOver stage stash =>
    rw [undelivered_handle]
    simp [Moment.sent, Moment.delivered, Moment.entered, entering_handle, undelivered, stash]
  | stashed stage mailbox barred behind =>
    simp [Moment.sent, Moment.delivered, Moment.entered, undelivered, mailbox]
  | sent running => simp [Moment.sent, Moment.delivered, undelivered]
  | added running =>
    rw [enqueue_eq]
    split <;> simp [Moment.sent, Moment.delivered, undelivered]
  | @passHalted around handled stage halted | @passDone around handled stage halted empty =>
    cases handled <;>
      simp [Moment.sent, Moment.delivered, Moment.entered, Event.entering, undelivered, closePass]
  | shutDown shutdown stage | failed runsCode => cases running
  | _ =>
    simp [Moment.sent, Moment.delivered, Moment.entered, Event.entering, undelivered, startPass,
      putBack]

theorem entering_stop (x : Executor α κ) (lane : Lane) :
    x.stop.2.flatMap (Event.entering lane) = [] := by
  apply List.flatMap_eq_nil_iff.mpr
  intro e member
  rcases event_stop member with rfl | rfl <;> rfl

theorem entered_step (step : Step x m events y) (lane : Lane) :
    Moment.entered lane ⟨x, m, events, y⟩ =
      Moment.delivered lane ⟨x, m, events, y⟩ ++ Moment.added lane ⟨x, m, events, y⟩ := by
  cases step with
  | added running => simp [Moment.delivered, Moment.added, Moment.entered, entering_enqueue]
  | failed running => simp [Moment.delivered, Moment.added, Moment.entered, entering_stop]
  | _ => simp [Moment.delivered, Moment.added, Moment.entered, Event.entering]

end Executor

namespace Run

open Executor

variable {history : List (Moment α κ)} {x : Executor α κ}

theorem queued (run : Run history x) : x.Queued := by
  induction run with
  | new => exact Queued.new
  | move run made ih => exact queued_step (step_of_move? made) ih

theorem arrivals (run : Run history x) (running : x.hasEnded = false) (lane : Lane) :
    gather (Moment.delivered lane) history ++ x.undelivered lane =
      gather (Moment.sent lane) history :=
  flows (fun x => x.undelivered lane) rfl
    (fun run step running => arrivals_step step running run.queued lane) run running

end Run

end TerminalFeed
