import TerminalFeed.Proofs.Preemption

/-!
Tasks run between tokens. They are queued by the messages that bring them and by the code
that schedules them in a pass, and start in that order, each once. No token is begun
before the queue is empty and all that has started has returned; and a token that has
finished leaves no task in the mailbox before the next one is begun.
-/

namespace TerminalFeed

variable {α κ : Type}

namespace Message

def tasks : Message α κ → List κ
  | .task code => [code]
  | _ => []

theorem tasks_of_not_overtakes {m : Message α κ} (behind : m.overtakes = false) :
    m.tasks = [] := by
  cases m <;> first | rfl | cases behind

end Message

namespace Event

def startsCode : Event α κ → Bool
  | .taskStarted _ | .performStarted _ => true
  | _ => false

def tasks : Event α κ → List κ
  | .taskStarted code => [code]
  | _ => []

end Event

def Stage.tasking : Stage α → Nat
  | .task _ => 1
  | _ => 0

def Stage.betweenPasses : Stage α → Bool
  | .waiting | .performs | .perform | .releasing => true
  | _ => false

namespace Moment

def sentTasks (moment : Moment α κ) : List κ := moment.message.flatMap Message.tasks

def broughtTasks (moment : Moment α κ) : List κ := moment.handled.flatMap Message.tasks

/-- The task that code leaves for later. Outside a pass it is run at once. -/
def scheduledTasks (moment : Moment α κ) : List κ :=
  match moment.move with
  | .schedule code => if moment.before.stage.inPass then [code] else []
  | _ => []

def queuedTasks (moment : Moment α κ) : List κ := moment.broughtTasks ++ moment.scheduledTasks

def startedTasks (moment : Moment α κ) : List κ :=
  match moment.move with
  | .tick _ => moment.events.flatMap Event.tasks
  | _ => []

def tasksReturned (moment : Moment α κ) : Nat :=
  match moment.move with
  | .finish => moment.before.stage.tasking
  | _ => 0

end Moment

def tasksReturned : List (Moment α κ) → Nat
  | [] => 0
  | moment :: past => moment.tasksReturned + tasksReturned past

namespace Executor

variable {x y : Executor α κ} {m : Move α κ} {events : List (Event α κ)}

theorem tasks_handle (x : Executor α κ) (n : Message α κ) :
    (x.handle n).1.tasks = x.tasks ++ n.tasks := by
  cases n with
  | deliver batch lane slot =>
    cases nothing : batch.isNothing <;> simp [handle, enqueue_eq, nothing, Message.tasks]
  | _ => simp [handle, Message.tasks]

theorem event_tasks_handle (x : Executor α κ) (n : Message α κ) :
    (x.handle n).2.flatMap Event.tasks = [] := by
  apply List.flatMap_eq_nil_iff.mpr
  intro e member
  rcases event_handle member with ⟨lane, batch, rfl⟩ | rfl | rfl <;> rfl

theorem tasks_step (step : Step x m events y) (running : y.hasEnded = false) :
    x.tasks ++ Moment.queuedTasks ⟨x, m, events, y⟩ =
      Moment.startedTasks ⟨x, m, events, y⟩ ++ y.tasks := by
  cases step with
  | woken stage mailbox =>
    rw [Moment.startedTasks, event_tasks_handle, tasks_handle]
    simp [Moment.queuedTasks, Moment.broughtTasks, Moment.scheduledTasks, Moment.handled, stage,
      mailbox]
  | absorbed stage mailbox passes =>
    rw [Moment.startedTasks, event_tasks_handle, tasks_handle, Moment.queuedTasks,
      Moment.broughtTasks, handled_absorbed stage mailbox passes]
    simp [Moment.scheduledTasks]
  | handedOver stage stash =>
    rw [Moment.startedTasks, event_tasks_handle, tasks_handle]
    simp [Moment.queuedTasks, Moment.broughtTasks, Moment.scheduledTasks, Moment.handled, stage,
      stash]
  | added running =>
    rw [← handle_eq_enqueue, tasks_handle]
    simp [Moment.queuedTasks, Moment.broughtTasks, Moment.scheduledTasks, Moment.startedTasks,
      Moment.handled, Message.tasks]
  | @passHalted around handled stage halted | @passDone around handled stage halted empty =>
    cases handled <;>
      simp [Moment.queuedTasks, Moment.broughtTasks, Moment.scheduledTasks, Moment.startedTasks,
        Moment.handled, Event.tasks, closePass, stage]
  | shutDown shutdown stage | failed runsCode => cases running
  | _ =>
    simp [Moment.queuedTasks, Moment.broughtTasks, Moment.scheduledTasks, Moment.startedTasks,
      Moment.handled, Event.tasks, startPass, putBack, *]

theorem mailTasks_step (step : Step x m events y) (running : y.hasEnded = false)
    (queued : x.Queued) :
    x.mailbox.flatMap Message.tasks ++ Moment.sentTasks ⟨x, m, events, y⟩ =
      Moment.broughtTasks ⟨x, m, events, y⟩ ++ y.mailbox.flatMap Message.tasks := by
  cases step with
  | sent running => simp [Moment.sentTasks, Moment.message, Moment.broughtTasks, Moment.handled]
  | woken stage mailbox =>
    rw [mailbox_handle]
    simp [Moment.sentTasks, Moment.message, Moment.broughtTasks, Moment.handled, stage, mailbox]
  | absorbed stage mailbox passes =>
    rw [mailbox_handle, Moment.broughtTasks, handled_absorbed stage mailbox passes, mailbox]
    simp [Moment.sentTasks, Moment.message]
  | stashed stage mailbox barred behind =>
    simp [Moment.sentTasks, Moment.message, Moment.broughtTasks, Moment.handled, stage, mailbox,
      barred, behind, Message.tasks_of_not_overtakes behind]
  | @handedOver around n rest stage stash =>
    have none := Message.tasks_of_not_overtakes
      (queued.behind n (by rw [stash]; exact .head _))
    rw [mailbox_handle]
    simp [Moment.sentTasks, Moment.message, Moment.broughtTasks, Moment.handled, stage, stash,
      none]
  | added running =>
    rw [← handle_eq_enqueue, mailbox_handle]
    simp [Moment.sentTasks, Moment.message, Moment.broughtTasks, Moment.handled]
  | shutDown shutdown stage | failed runsCode => cases running
  | _ =>
    simp [Moment.sentTasks, Moment.message, Moment.broughtTasks, Moment.handled, startPass,
      closePass, putBack, *]

theorem tasking_step (step : Step x m events y) (running : y.hasEnded = false) :
    (Moment.startedTasks ⟨x, m, events, y⟩).length + x.stage.tasking =
      Moment.tasksReturned ⟨x, m, events, y⟩ + y.stage.tasking := by
  cases step with
  | woken stage mailbox | absorbed stage mailbox passes =>
    rw [Moment.startedTasks, event_tasks_handle, stage_handle]
    simp [Moment.tasksReturned, stage, Stage.tasking]
  | @handedOver around n rest stage stash =>
    rw [Moment.startedTasks, event_tasks_handle, stage_handle]
    cases n <;> simp [Moment.tasksReturned, stage, Stage.tasking, Message.isPerform]
  | added running => simp [Moment.startedTasks, Moment.tasksReturned]
  | performReturned stage =>
    cases x.pending <;> simp [Moment.startedTasks, Moment.tasksReturned, stage, Stage.tasking]
  | @passHalted around handled stage halted | @passDone around handled stage halted empty =>
    cases handled <;>
      simp [Moment.startedTasks, Moment.tasksReturned, Event.tasks, closePass, stage,
        Stage.tasking]
  | shutDown shutdown stage | failed runsCode => cases running
  | _ =>
    simp [Moment.startedTasks, Moment.tasksReturned, Event.tasks, startPass, putBack,
      Stage.tasking, *]

/-- Between two passes no task waits: what is handed over from the stash brings none, and
what code schedules there is run at once. -/
theorem betweenPasses_step (step : Step x m events y) (queued : x.Queued)
    (before : x.stage.betweenPasses → x.tasks = []) :
    y.stage.betweenPasses → y.tasks = [] := by
  cases step with
  | woken stage mailbox | absorbed stage mailbox passes =>
    rw [stage_handle]
    simp [stage, Stage.betweenPasses]
  | @handedOver around n rest stage stash =>
    have none := Message.tasks_of_not_overtakes
      (queued.behind n (by rw [stash]; exact .head _))
    have empty := before (by rw [stage]; rfl)
    rw [tasks_handle, none]
    exact fun _ => by simpa using empty
  | added running =>
    rw [stage_enqueue, ← handle_eq_enqueue, tasks_handle]
    simpa [Message.tasks] using before
  | queued running inPass =>
    intro between
    cases stage : x.stage <;> simp_all [Stage.betweenPasses, Stage.inPass]
  | sent running | idle stage mailbox | inert stage | ranAtOnce running outside => exact before
  | performReturned stage => exact fun _ => before (by rw [stage]; rfl)
  | passLeft stage tasks => exact fun _ => tasks
  | rested stage pending shutdown | performStarted stage pending shutdown =>
    exact fun _ => before (by rw [stage]; rfl)
  | shutDown shutdown stage | failed running => simp [stop]
  | _ => simp [startPass, closePass, putBack, Stage.betweenPasses, *]

theorem apart_step (step : Step x m events y) {lane : Lane} {batch : Batch α} {rolledBack : Bool}
    (executing : x.stage = .token lane batch rolledBack) :
    events.any Event.startsCode = false := by
  cases step with
  | added running =>
    rw [← handle_eq_enqueue]
    exact any_handle (fun _ _ => rfl) rfl (fun _ => rfl) x _
  | ranAtOnce running outside => simp [executing, Stage.inPass] at outside
  | failed running => simp [stop, Event.startsCode]
  | sent running | queued running inPass | rollBackAsked stage | tokenVoid stage spent
  | tokenRolledBack stage current | tokenExecuted stage current => rfl
  | shutDown shutdown stage => simp [executing] at stage
  | _ => simp_all

theorem startedTasks_of_hasEnded (made : x.move? m = some (y, events)) (gone : y.hasEnded) :
    Moment.startedTasks ⟨x, m, events, y⟩ = [] := by
  have quiet : events.flatMap Event.tasks = [] := by
    apply List.flatMap_eq_nil_iff.mpr
    intro e member
    rcases event_of_hasEnded made gone member with rfl | rfl <;> rfl
  unfold Moment.startedTasks
  split
  · exact quiet
  · rfl

theorem broughtTasks_of_hasEnded (made : x.move? m = some (y, events)) (gone : y.hasEnded) :
    Moment.broughtTasks ⟨x, m, events, y⟩ = [] := by
  rw [Moment.broughtTasks, handled_of_hasEnded made gone, List.flatMap_nil]

theorem clear_step (step : Step x m events y) (takes : events.any Event.takes) :
    x.tasks = [] ∧ ∃ lane batch, x.stage = .tasks (.before lane batch) := by
  have outside (z : Executor α κ) (n : Message α κ) : (z.handle n).2.any Event.takes = false :=
    any_handle (fun _ _ => rfl) rfl (fun _ => rfl) z n
  cases step with
  | tokenDropped stage tasks halted current discards
  | tokenStarted stage tasks halted current discards => exact ⟨tasks, _, _, stage⟩
  | woken stage mailbox | absorbed stage mailbox passes | handedOver stage stash =>
    rw [outside] at takes
    cases takes
  | added running =>
    rw [← handle_eq_enqueue, outside] at takes
    cases takes
  | @passHalted around handled stage halted | @passDone around handled stage halted empty =>
    cases handled <;> cases takes
  | shutDown shutdown stage | failed running => simp [stop, Event.takes] at takes
  | _ => cases takes

end Executor

theorem brought_sublist_queued (history : List (Moment α κ)) :
    (gather Moment.broughtTasks history).Sublist (gather Moment.queuedTasks history) := by
  induction history with
  | nil => exact .slnil
  | cons moment past ih => exact ih.append (List.sublist_append_left _ _)

structure TasksFirst (history : List (Moment α κ)) (x : Executor α κ) : Prop where
  -- Tasks come out of the mailbox in the order in which they were sent.
  arrivals : gather Moment.broughtTasks history <+: gather Moment.sentTasks history
  -- Tasks start in the order in which they were queued, each once.
  order : gather Moment.startedTasks history <+: gather Moment.queuedTasks history
  -- Until the executor ends, none is lost.
  kept : x.hasEnded = false →
    gather Moment.startedTasks history ++ x.tasks = gather Moment.queuedTasks history
  rest : x.stage = .waiting →
    gather Moment.startedTasks history = gather Moment.queuedTasks history ∧
      tasksReturned history = (gather Moment.startedTasks history).length
  -- While a token executes no task runs and no perform, and none starts.
  apart : x.isExecutingToken →
    tasksReturned history = (gather Moment.startedTasks history).length ∧
      performedWhole history = (performed history).length ∧
      ∀ m y events, x.move? m = some (y, events) → events.any Event.startsCode = false
  -- When a token starts or is dropped, all tasks have run that had been queued, and with
  -- them all that came out of the mailbox.
  clear : ∀ m y events, x.move? m = some (y, events) → events.any Event.takes →
    x.tasks = [] ∧
      gather Moment.startedTasks history = gather Moment.queuedTasks history ∧
      tasksReturned history = (gather Moment.startedTasks history).length ∧
      (gather Moment.broughtTasks history).Sublist (gather Moment.startedTasks history)
  -- And whenever a token finished before, all tasks that were in the mailbox have been
  -- queued since, and so have run.
  ahead : ∀ m y events, x.move? m = some (y, events) → events.any Event.takes →
    ∀ later moment past, history = later ++ moment :: past →
      moment.events.any Event.finishes →
      gather Moment.broughtTasks (moment :: past) ++
          moment.after.mailbox.flatMap Message.tasks <+:
        gather Moment.broughtTasks history

namespace Run

open Executor

variable {history : List (Moment α κ)} {x : Executor α κ}

theorem tasks (run : Run history x) (running : x.hasEnded = false) :
    gather Moment.startedTasks history ++ x.tasks = gather Moment.queuedTasks history :=
  flows Executor.tasks rfl (fun _ step running => tasks_step step running) run running

theorem mailTasks (run : Run history x) (running : x.hasEnded = false) :
    gather Moment.broughtTasks history ++ x.mailbox.flatMap Message.tasks =
      gather Moment.sentTasks history :=
  flows (fun x => x.mailbox.flatMap Message.tasks) rfl
    (fun run step running => mailTasks_step step running run.queued) run running

theorem tasking (run : Run history x) (running : x.hasEnded = false) :
    (gather Moment.startedTasks history).length = tasksReturned history + x.stage.tasking := by
  induction run with
  | new => rfl
  | move run made ih =>
    have before := ih (running_before made running)
    have after := tasking_step (step_of_move? made) running
    rw [gather, List.length_append, TerminalFeed.tasksReturned]
    omega

theorem betweenPasses (run : Run history x) : x.stage.betweenPasses → x.tasks = [] := by
  induction run with
  | new => exact fun _ => rfl
  | move run made ih => exact betweenPasses_step (step_of_move? made) run.queued ih

theorem tasks_run (run : Run history x) (running : x.hasEnded = false) (empty : x.tasks = [])
    (idle : x.stage.tasking = 0) :
    gather Moment.startedTasks history = gather Moment.queuedTasks history ∧
      tasksReturned history = (gather Moment.startedTasks history).length := by
  have order := run.tasks running
  have count := run.tasking running
  rw [empty, List.append_nil] at order
  rw [idle, Nat.add_zero] at count
  exact ⟨order, count.symm⟩

/-- At every point of every run, tasks run between tokens, in order and each once. -/
theorem tasksFirst (run : Run history x) : TasksFirst history x := by
  constructor
  · exact leaves_prefix (fun run running => run.mailTasks running) broughtTasks_of_hasEnded run
  · exact leaves_prefix (fun run running => run.tasks running) startedTasks_of_hasEnded run
  · exact run.tasks
  · intro stage
    apply run.tasks_run
    · rw [hasEnded, stage]
    · exact run.betweenPasses (by rw [stage]; rfl)
    · rw [stage]
      rfl
  · intro executing
    obtain ⟨lane, batch, rolledBack, stage⟩ :
        ∃ lane batch rolledBack, x.stage = .token lane batch rolledBack := by
      unfold isExecutingToken at executing
      split at executing
      · exact ⟨_, _, _, ‹_›⟩
      · cases executing
    have running : x.hasEnded = false := by rw [hasEnded, stage]
    have tasks := run.tasking running
    have performs := run.performing running
    rw [stage] at tasks performs
    refine ⟨tasks.symm, performs.symm, ?_⟩
    intro m y events made
    exact apart_step (step_of_move? made) stage
  · intro m y events made takes
    obtain ⟨empty, lane, batch, stage⟩ := clear_step (step_of_move? made) takes
    obtain ⟨order, returned⟩ := run.tasks_run (by rw [hasEnded, stage]) empty
      (by rw [stage]; rfl)
    refine ⟨empty, order, returned, ?_⟩
    rw [order]
    exact brought_sublist_queued history
  · rintro m y events made takes later moment past rfl finishes
    obtain ⟨-, lane, batch, stage⟩ := clear_step (step_of_move? made) takes
    have running : x.hasEnded = false := by rw [hasEnded, stage]
    obtain ⟨sofar, alive⟩ := run.earlier running
    have turns : moment.after.turnsToMail :=
      finishes_step (run.step (List.mem_append_right _ (.head _))) finishes
    rcases reads_of mailTasks run running turns with still | read
    · simp [turnsToMail, stage, Stage.leadsToMail, AfterTasks.leadsToMail] at still
    · rwa [sofar.mailTasks alive]

/-- A task is sent while a token executes and schedules another one, with a perform
pending. Both run before the next token, the one that was scheduled first. -/
theorem tasksFirst_pending :
    let moves : List (Move Nat Nat) :=
      [.send (.deliver (.ofTokens [1, 2] 2) .normal false), .send (.perform 7)] ++
        .replicate 7 (.tick .calm) ++ [.schedule 8, .send (.task 9), .finish, .tick .calm] ++
        .finish :: .replicate 5 (.tick .calm) ++ [.finish]
    let run := Executor.new.play [] moves
    (run.2.move? (.tick .calm)).map Prod.snd = some [.tokenStarted .normal 2] ∧
      gather Moment.startedTasks run.1 = [8, 9] ∧ run.2.pending = [7] ∧
      TasksFirst run.1 run.2 :=
  ⟨rfl, rfl, rfl, tasksFirst (run_play .new _)⟩

end Run

end TerminalFeed
