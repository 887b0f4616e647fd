import TerminalFeed.Proofs.Arrivals
import TerminalFeed.Proofs.Ledger

/-!
First in, first out, in each lane. Batches enter a lane in the order in which
they were sent, and tokens leave it in the order in which they came; whatever
takes a batch out of its lane and puts it back, no token is lost, moved or
consumed twice.
-/

namespace TerminalFeed

variable {α κ : Type}

/-! The line of a lane: the batch in progress, and those that wait. -/

def AfterMail.held : AfterMail α → Lane → List (Batch α)
  | .boundary other batch, lane => if other = lane then [batch] else []
  | _, _ => []

def AfterTasks.held : AfterTasks α → Lane → List (Batch α)
  | .before other batch, lane | .after other batch, lane =>
    if other = lane then [batch] else []
  | _, _ => []

def Stage.held : Stage α → Lane → List (Batch α)
  | .mail next, lane => next.held lane
  | .tasks next, lane | .task next, lane => next.held lane
  | .batch other b, lane | .token other b _, lane => if other = lane then [b] else []
  | _, _ => []

def Executor.line (x : Executor α κ) (lane : Lane) : List (Batch α) :=
  x.stage.held lane ++ x.lanes.waiting lane

/-- Whether a token is left of the batch that is about to have one executed. -/
def Stage.unfinished : Stage α → Prop
  | .tasks (.before _ b) | .task (.before _ b) | .token _ b _ => b.rest ≠ []
  | _ => True

def Event.concerns (lane : Lane) : Event α κ → Bool
  | .enqueued other _ | .tokenDropped other _ | .tokenExecuted other _
  | .batchCompleted other _ => other = lane
  | .discarded _ | .ended => true
  | _ => false

/-- What can happen to the line of a lane, and the one event that tells of it. -/
inductive Shift (lane : Lane) :
    List (Batch α) → List (Event α κ) → List (Batch α) → Prop
  | still (line : List (Batch α)) : Shift lane line [] line
  | enters (line : List (Batch α)) {batch : Batch α} (real : batch.isNothing = false) :
      Shift lane line [.enqueued lane batch] (line ++ [batch])
  | drops (ahead : List (Batch α)) (lanes : Lanes α) :
      Shift lane (ahead ++ lanes.waiting lane) [.discarded lanes] ahead
  | consumes (line : List (Batch α)) {batch : Batch α} {token : α} {rest : List α}
      {event : Event α κ}
      (consumed : event = .tokenDropped lane token ∨ event = .tokenExecuted lane token)
      (current : batch.rest = token :: rest) :
      Shift lane (batch :: line) [event] (batch.advance :: line)
  | completes (line : List (Batch α)) {batch : Batch α} (spent : batch.rest = []) :
      Shift lane (batch :: line) [.batchCompleted lane batch.byteLength] line

/-- Books that say nothing of what does not concern a lane can be kept by what does. -/
theorem foldl_concerns {σ : Type} {record : σ → Event α κ → σ} {lane : Lane}
    (quiet : ∀ s e, e.concerns lane = false → record s e = s) (events : List (Event α κ))
    (s : σ) : (events.filter (Event.concerns lane)).foldl record s = events.foldl record s := by
  induction events generalizing s with
  | nil => rfl
  | cons e rest ih =>
    cases about : e.concerns lane with
    | true => simp [about, ih]
    | false => simp [about, ih, quiet s e about]

namespace Ledger

theorem record_of_not_concerns {lane : Lane} (l : Ledger α) (e : Event α κ)
    (elsewhere : e.concerns lane = false) : record lane l e = l := by
  cases e <;> simp_all [record, Event.concerns]

theorem InOrder.shift {lane : Lane} {l : Ledger α} {line line' : List (Batch α)}
    {events : List (Event α κ)} (order : l.InOrder line) (shift : Shift lane line events line') :
    (events.foldl (record lane) l).InOrder line' := by
  cases shift with
  | still line => exact order
  | @enters line batch real => simpa [record] using order.enter batch
  | drops ahead lanes => exact order.drop
  | @consumes line batch token rest event consumed current =>
    have after := order.consume current (by rw [Batch.rest_advance, current, List.tail_cons])
    rcases consumed with rfl | rfl <;> simpa [record] using after
  | completes line spent => exact order.leave spent

end Ledger

/-! What a history says about a lane. -/

def ledgerOf (lane : Lane) (history : List (Moment α κ)) : Ledger α :=
  .ofEvents lane (gather Moment.events history)

namespace Event

def started (lane : Lane) : Event α κ → List α
  | .tokenStarted other token => if other = lane then [token] else []
  | _ => []

def returned (lane : Lane) : Event α κ → List α
  | .tokenExecuted other token | .tokenRolledBack other token =>
    if other = lane then [token] else []
  | _ => []

end Event

def Stage.executing : Stage α → Lane → List α
  | .token other b _, lane => if other = lane then b.rest.take 1 else []
  | _, _ => []

namespace Executor

variable {x y : Executor α κ} {m : Move α κ} {events : List (Event α κ)}

/-! How the line of a lane moves. -/

theorem shift_enqueue (x : Executor α κ) (lane other : Lane) (batch : Batch α) :
    Shift lane (x.line lane) ((x.enqueue other batch).2.filter (Event.concerns lane))
      ((x.enqueue other batch).1.line lane) := by
  rw [enqueue_eq]
  cases nothing : batch.isNothing with
  | true => exact .still _
  | false =>
    by_cases same : other = lane
    · subst other
      have entered : Shift lane (x.line lane) ([.enqueued lane batch] : List (Event α κ))
          (x.line lane ++ [batch]) := .enters (x.line lane) nothing
      simpa [Event.concerns, line, Lanes.waiting_pushBack] using entered
    · have apart : lane ≠ other := fun equal => same equal.symm
      have stays : Shift lane (x.line lane) ([] : List (Event α κ)) (x.line lane) := .still _
      simpa [Event.concerns, line, Lanes.waiting_pushBack, same, apart] using stays

theorem shift_handle (x : Executor α κ) (lane : Lane) (m : Message α κ) :
    Shift lane (x.line lane) ((x.handle m).2.filter (Event.concerns lane))
      ((x.handle m).1.line lane) := by
  cases m with
  | deliver batch other slot =>
    have entered := shift_enqueue x lane other batch
    cases slot <;> simpa [handle, Event.concerns] using entered
  | discardAll =>
    have dropped : Shift lane (x.line lane) ([.discarded x.lanes] : List (Event α κ))
        (x.stage.held lane) := .drops _ x.lanes
    simpa [handle, List.filter, Event.concerns, line] using dropped
  | _ => exact .still _

theorem line_putBack (x : Executor α κ) (lane other : Lane) (batch : Batch α) :
    (x.putBack other batch).line lane =
      (if other = lane then [batch] else []) ++ x.lanes.waiting lane := by
  by_cases same : other = lane
  · simp [putBack, line, Stage.held, Lanes.waiting_pushFront, same]
  · have apart : lane ≠ other := fun equal => same equal.symm
    simp [putBack, line, Stage.held, Lanes.waiting_pushFront, same, apart]

theorem line_selected {x : Executor α κ} {handled : Bool} {other : Lane} {batch : Batch α}
    {lanes : Lanes α} (stage : x.stage = .selecting handled)
    (popped : x.lanes.pop? = some (other, batch, lanes)) (lane : Lane) :
    ({ x with lanes := lanes, stage := .batch other batch } : Executor α κ).line lane =
      x.line lane := by
  obtain ⟨whole, -⟩ := Lanes.pop?_eq_some_iff.mp popped
  have back := line_putBack { x with lanes := lanes } lane other batch
  simpa [line, Stage.held, putBack, stage, whole] using back.symm

theorem line_returned {x : Executor α κ} {lane other : Lane} {batch : Batch α}
    (held : x.stage.held lane = if other = lane then [batch] else []) :
    (x.putBack other batch).line lane = x.line lane := by
  rw [line_putBack, line, held]

theorem shift_consumed {x y : Executor α κ} {lane other : Lane} {batch : Batch α}
    {token : α} {rest : List α} {event : Event α κ}
    (consumes : event = .tokenDropped other token ∨ event = .tokenExecuted other token)
    (current : batch.rest = token :: rest)
    (held : x.stage.held lane = if other = lane then [batch] else [])
    (after : y.stage.held lane = if other = lane then [batch.advance] else [])
    (waiting : y.lanes = x.lanes) :
    Shift lane (x.line lane) ([event].filter (Event.concerns lane)) (y.line lane) := by
  rw [line, held, line, after, waiting]
  -- In the other lane nothing is told, and nothing moves.
  by_cases same : other = lane
  · subst other
    have consumed := Shift.consumes (x.lanes.waiting lane) consumes current
    rcases consumes with rfl | rfl <;> simpa [Event.concerns] using consumed
  · have stays : Shift lane (x.lanes.waiting lane) ([] : List (Event α κ))
        (x.lanes.waiting lane) := .still _
    rcases consumes with rfl | rfl <;> simpa [Event.concerns, same] using stays

theorem shift_completed {x y : Executor α κ} {lane other : Lane} {batch : Batch α}
    (spent : batch.rest = []) (held : x.stage.held lane = if other = lane then [batch] else [])
    (after : y.stage.held lane = []) (waiting : y.lanes = x.lanes) :
    Shift lane (x.line lane)
      (([.batchCompleted other batch.byteLength] : List (Event α κ)).filter
        (Event.concerns lane)) (y.line lane) := by
  rw [line, held, line, after, waiting]
  by_cases same : other = lane
  · subst other
    have completed : Shift lane (batch :: x.lanes.waiting lane)
        ([.batchCompleted lane batch.byteLength] : List (Event α κ)) (x.lanes.waiting lane) :=
      .completes _ spent
    simpa [Event.concerns] using completed
  · have stays : Shift lane (x.lanes.waiting lane) ([] : List (Event α κ))
        (x.lanes.waiting lane) := .still _
    simpa [Event.concerns, same] using stays

theorem unfinished_step (step : Step x m events y) (before : x.stage.unfinished) :
    y.stage.unfinished := by
  cases step with
  | woken stage mailbox => simp [Stage.unfinished]
  | absorbed stage mailbox passes => simp [stage, Stage.unfinished]
  | @handedOver around n rest stage stash =>
    rw [stage_handle]
    cases n <;> trivial
  | added running => rwa [stage_enqueue]
  | @taskStarted around next code rest stage tasks | @taskReturned next stage =>
    rw [stage] at before
    cases next <;> exact before
  | entered stage unfinished => exact unfinished
  | tokenStarted stage tasks halted current discards =>
    rw [stage] at before
    exact before
  | rollBackAsked stage =>
    rw [stage] at before
    exact before
  | performReturned stage => cases x.pending <;> trivial
  | sent running | idle stage mailbox | inert stage | queued running inPass
  | ranAtOnce running inPass => exact before
  | stashed stage mailbox barred behind => simp [stage, Stage.unfinished]
  | _ => trivial

theorem shift_step (step : Step x m events y) (running : y.hasEnded = false)
    (unfinished : x.stage.unfinished) (lane : Lane) :
    Shift lane (x.line lane) (events.filter (Event.concerns lane)) (y.line lane) := by
  have stays : Shift lane (x.line lane) ([] : List (Event α κ)) (x.line lane) := .still _
  -- A batch leaves its line when it is over, and only then: a batch that is put
  -- back was at its head before. All other steps leave the line as it is.
  cases step with
  | @woken around m rest stage mailbox =>
    have same : ({ x with mailbox := rest, stage := .mail .turn } : Executor α κ).line lane =
        x.line lane := by
      simp [line, stage, Stage.held, AfterMail.held]
    rw [← same]
    exact shift_handle _ lane _
  | @absorbed around next m rest stage mailbox passes =>
    exact shift_handle { x with mailbox := rest } lane m
  | @handedOver around m rest stage stash =>
    have same : ({ x with
        stash := rest
        stage := if m.isPerform then .mail .perform else .releasing } : Executor α κ).line lane =
        x.line lane := by
      cases m <;> simp [line, stage, Stage.held, AfterMail.held, Message.isPerform]
    rw [← same]
    exact shift_handle _ lane _
  | added running => exact shift_enqueue x lane _ _
  | @yielded around batch stage mailbox high unfinished =>
    have same : (x.putBack .normal batch).line lane = x.line lane :=
      line_returned (by rw [stage]; rfl)
    rwa [same]
  | @interrupted around other batch stage tasks halted =>
    have same : (x.putBack other batch).line lane = x.line lane :=
      line_returned (by rw [stage]; rfl)
    rwa [same]
  | @tokenRolledBack other batch token rest stage current =>
    have same : ({ x with stopRequested := true }.putBack other batch).line lane = x.line lane :=
      line_returned (by rw [stage]; rfl)
    rwa [same]
  | selected stage halted popped =>
    rw [line_selected stage popped]
    exact stays
  | tokenDropped stage tasks halted current discards =>
    exact shift_consumed (.inl rfl) current (by rw [stage]; rfl) rfl rfl
  | tokenExecuted stage current =>
    exact shift_consumed (.inr rfl) current (by rw [stage]; rfl) rfl rfl
  | completed stage spent => exact shift_completed spent (by rw [stage]; rfl) rfl rfl
  | exhausted stage tasks spent | tokenVoid stage spent =>
    rw [stage] at unfinished
    exact absurd spent unfinished
  | shutDown shutdown stage | failed runsCode => cases running
  | passStarted stage mailbox opens =>
    rcases opens with rfl | ⟨rfl, -⟩ <;>
      simpa [line, startPass, stage, Stage.held, AfterMail.held, AfterTasks.held,
        Event.concerns] using stays
  | performReturned stage =>
    cases x.pending <;> simpa [line, stage, Stage.held, AfterMail.held] using stays
  | @passHalted around handled stage halted | @passDone around handled stage halted empty =>
    cases handled <;>
      simpa [line, closePass, stage, Stage.held, AfterTasks.held, Event.concerns] using stays
  | _ =>
    -- The stage changes, and with it where the batch in progress is kept.
    simpa [line, Stage.held, AfterTasks.held, AfterMail.held, Event.concerns, *] using stays

theorem calm_handle (x : Executor α κ) (lane : Lane) (m : Message α κ) :
    (x.handle m).2.flatMap (Event.started lane) = [] ∧
      (x.handle m).2.flatMap (Event.returned lane) = [] := by
  constructor
  all_goals
    apply List.flatMap_eq_nil_iff.mpr
    intro e member
    rcases event_handle member with ⟨other, batch, rfl⟩ | rfl | rfl <;> rfl

theorem attempts_step (step : Step x m events y) (running : y.hasEnded = false) (lane : Lane) :
    x.stage.executing lane ++ events.flatMap (Event.started lane) =
      events.flatMap (Event.returned lane) ++ y.stage.executing lane := by
  cases step with
  | @woken around m rest stage mailbox =>
    rw [(calm_handle _ lane m).1, (calm_handle _ lane m).2, stage_handle]
    simp [stage, Stage.executing]
  | @absorbed around next m rest stage mailbox passes =>
    rw [(calm_handle _ lane m).1, (calm_handle _ lane m).2, stage_handle]
    simp
  | @handedOver around m rest stage stash =>
    rw [(calm_handle _ lane m).1, (calm_handle _ lane m).2, stage_handle]
    cases m <;> simp [stage, Stage.executing, Message.isPerform]
  | @added other batch running =>
    obtain ⟨started, returned⟩ := calm_handle x lane (.deliver batch other false)
    rw [handle_eq_enqueue] at started returned
    rw [started, returned, stage_enqueue, List.nil_append, List.append_nil]
  | performReturned stage =>
    cases x.pending <;> simp [stage, Stage.executing]
  | @passHalted around handled stage halted | @passDone around handled stage halted empty =>
    cases handled <;> simp [closePass, stage, Stage.executing, Event.started, Event.returned]
  | shutDown shutdown stage | failed runsCode => cases running
  | _ => simp [startPass, putBack, Stage.executing, Event.started, Event.returned, *]

theorem discarded_handle {x : Executor α κ} {m : Message α κ} {dropped : Lanes α}
    (drops : .discarded dropped ∈ (x.handle m).2) (lane : Lane) :
    dropped = x.lanes ∧ (x.handle m).1.line lane = x.stage.held lane := by
  cases m with
  | discardAll =>
    have same : dropped = x.lanes := by simpa [handle] using drops
    exact ⟨same, by simp [handle, line]⟩
  | deliver batch other slot =>
    simp only [handle, enqueue_eq] at drops
    by_cases nothing : batch.isNothing <;> cases slot <;> simp [nothing] at drops
  | _ => simp [handle] at drops

theorem discarded_step (step : Step x m events y) {dropped : Lanes α}
    (drops : .discarded dropped ∈ events) (lane : Lane) :
    dropped = x.lanes ∧ y.line lane = x.stage.held lane := by
  cases step with
  | woken stage mailbox =>
    obtain ⟨same, left⟩ := discarded_handle drops lane
    exact ⟨same, by rw [left, stage]; rfl⟩
  | absorbed stage mailbox passes => exact discarded_handle drops lane
  | @handedOver around m rest stage stash =>
    obtain ⟨same, left⟩ := discarded_handle drops lane
    refine ⟨same, ?_⟩
    rw [left, stage]
    cases m <;> rfl
  | @added other batch running =>
    rw [enqueue_eq] at drops
    cases nothing : batch.isNothing <;> simp [nothing] at drops
  | @passHalted around handled stage halted | @passDone around handled stage halted empty =>
    cases handled <;> simp [closePass] at drops
  | shutDown shutdown stage | failed running => simp [stop] at drops
  | _ => simp [startPass] at drops

theorem started_step (step : Step x m events y) {lane : Lane} {token : α}
    (starts : .tokenStarted lane token ∈ events) :
    ((x.line lane).flatMap Batch.rest).head? = some token := by
  obtain ⟨other, batch, first, rest, current, ⟨stage, same⟩ | ⟨_, _, impossible⟩⟩ :=
    token_event step starts rfl
  · obtain ⟨rfl, rfl⟩ : lane = other ∧ token = first := by simpa using same
    simp [line, stage, Stage.held, AfterTasks.held, current]
  · simp at impossible

end Executor

structure Orderly (history : List (Moment α κ)) (x : Executor α κ) (lane : Lane) : Prop where
  -- What was sent has been delivered in the order in which it was sent. What
  -- is left is in the stash, or else in the mailbox.
  arrivals : gather (Moment.delivered lane) history ++ x.undelivered lane =
    gather (Moment.sent lane) history
  -- Nothing enters but what is delivered, and what code adds there and then.
  entries : ∀ moment ∈ history,
    moment.entered lane = moment.delivered lane ++ moment.added lane
  drops : ∀ moment ∈ history, ∀ dropped, .discarded dropped ∈ moment.events →
    dropped = moment.before.lanes ∧ moment.after.line lane = moment.before.stage.held lane
  -- The line is made of the last batches that entered and were not dropped.
  standing : Ledger.Standing (ledgerOf lane history).deposits (x.line lane).reverse
  -- What has been consumed, and then what is left in line, is what came in.
  balance : (ledgerOf lane history).consumed ++ (x.line lane).flatMap Batch.rest =
    Ledger.contents (ledgerOf lane history).deposits
  -- A token that has started is executed, or rolled back to start again, or
  -- still executing.
  attempts : gather (fun moment => moment.events.flatMap (Event.started lane)) history =
    gather (fun moment => moment.events.flatMap (Event.returned lane)) history ++
      x.stage.executing lane
  -- The token that starts is the next one to be consumed.
  starts : ∀ moment ∈ history, ∀ token, .tokenStarted lane token ∈ moment.events →
    ((moment.before.line lane).flatMap Batch.rest).head? = some token

namespace Run

open Executor

variable {history : List (Moment α κ)} {x : Executor α κ}

theorem unfinished (run : Run history x) : x.stage.unfinished := by
  induction run with
  | new => trivial
  | move run made ih => exact unfinished_step (step_of_move? made) ih

theorem inOrder (run : Run history x) (running : x.hasEnded = false) (lane : Lane) :
    (ledgerOf lane history).InOrder (x.line lane) := by
  induction run with
  | new =>
    cases lane <;> exact .blank
  | move run made ih =>
    have before := ih (running_before made running)
    have after := before.shift (shift_step (step_of_move? made) running run.unfinished lane)
    rw [foldl_concerns Ledger.record_of_not_concerns] at after
    simpa [ledgerOf, Ledger.ofEvents, gather, List.foldl_append] using after

theorem attempts (run : Run history x) (running : x.hasEnded = false) (lane : Lane) :
    gather (fun moment => moment.events.flatMap (Event.started lane)) history =
      gather (fun moment => moment.events.flatMap (Event.returned lane)) history ++
        x.stage.executing lane :=
  .symm (flows (fun x => x.stage.executing lane) rfl
    (fun _ step running => attempts_step step running lane) run running)

/-- At every point of every run, each lane is first in, first out, and no token
of it is lost, moved or consumed twice. -/
theorem orderly (run : Run history x) (running : x.hasEnded = false) (lane : Lane) :
    Orderly history x lane := by
  have order := run.inOrder running lane
  refine ⟨run.arrivals running lane, ?_, ?_, order.standing, order.balance,
    run.attempts running lane, ?_⟩
  · intro moment member
    exact entered_step (run.step member) lane
  · intro moment member dropped drops
    exact discarded_step (run.step member) drops lane
  · intro moment member token starts
    exact started_step (run.step member) starts

/-- A normal batch is left at a high one, whose token is rolled back, and what
remains of both is dropped. -/
theorem orderly_rolledBack :
    let moves : List (Move Nat Nat) :=
      .send (.deliver (.ofTokens [1, 2] 2) .normal false) :: .replicate 6 (.tick .calm) ++
        [.send (.deliver (.ofTokens [3] 1) .high false), .finish] ++
        .replicate 6 (.tick .calm) ++ [.rollBack, .finish, .send .discardAll] ++
        .replicate 4 (.tick .calm)
    let run := Executor.new.play [] moves
    run.2.hasEnded = false ∧ (ledgerOf .normal run.1).consumed = [1] ∧
      Ledger.contents (ledgerOf .normal run.1).deposits = [1] ∧
      Orderly run.1 run.2 .normal := by
  refine ⟨rfl, rfl, rfl, ?_⟩
  exact orderly (run_play .new _) rfl .normal

end Run

end TerminalFeed
