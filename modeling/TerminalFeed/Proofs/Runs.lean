import TerminalFeed.Scheduler.Idle

/-!
Every run of an executor. Whatever can happen to one is a move: a message is
sent to it, it takes a step, or the code that runs on it does something. A run
keeps its history, the last moment first. `Step` says once what a move can lead
to, and what a run keeps true is read off from it.
-/

namespace TerminalFeed

variable {α κ : Type}

inductive Move (α κ : Type) where
  | send (m : Message α κ)
  | tick (around : Surroundings)
  | finish
  | add (lane : Lane) (batch : Batch α)
  | schedule (code : κ)
  | rollBack
  -- The code that runs fails, and takes the executor with it.
  | fail

def Surroundings.calm : Surroundings := ⟨false, false, fun _ => false⟩

namespace Executor

/-- Where a move leads, if it can be made. All but the first two are the
doing of code that runs. -/
def move? (x : Executor α κ) : Move α κ → Option (Executor α κ × List (Event α κ))
  | .send m => (x.send? m).map (·, [])
  | .tick around => if x.stage.runsCode then none else some (x.tick around)
  | .finish => if x.stage.runsCode then some x.finish else none
  | .add lane batch => if x.stage.runsCode then some (x.enqueue lane batch) else none
  | .schedule code => if x.stage.runsCode then some (x.schedule code) else none
  | .rollBack => x.rollBack?.map (·, [])
  | .fail => if x.stage.runsCode then some x.stop else none

end Executor

structure Moment (α κ : Type) where
  before : Executor α κ
  move : Move α κ
  events : List (Event α κ)
  after : Executor α κ

inductive Run : List (Moment α κ) → Executor α κ → Prop
  | new : Run [] .new
  | move {past : List (Moment α κ)} {x y : Executor α κ} {m : Move α κ}
      {events : List (Event α κ)} (run : Run past x) (made : x.move? m = some (y, events)) :
      Run (⟨x, m, events, y⟩ :: past) y

def gather {β : Type} (give : Moment α κ → List β) : List (Moment α κ) → List β
  | [] => []
  | moment :: past => gather give past ++ give moment

def Batch.isNothing (b : Batch α) : Bool := b.isEmpty && b.byteLength == 0

def Event.isToken : Event α κ → Bool
  | .tokenStarted .. | .tokenDropped .. | .tokenExecuted .. | .tokenRolledBack .. => true
  | _ => false

def Event.entering (lane : Lane) : Event α κ → List (Batch α)
  | .enqueued other batch => if other = lane then [batch] else []
  | _ => []

namespace Moment

def entered (lane : Lane) (moment : Moment α κ) : List (Batch α) :=
  moment.events.flatMap (Event.entering lane)

def added (lane : Lane) (moment : Moment α κ) : List (Batch α) :=
  match moment.move with
  | .add other batch => if other = lane ∧ batch.isNothing = false then [batch] else []
  | _ => []

end Moment

/-- What code has added to a lane lately: for as long as the stage has been of
one kind. -/
def addedLately (kind : Stage α → Bool) (lane : Lane) (history : List (Moment α κ)) :
    List (Batch α) :=
  gather (Moment.added lane) (history.takeWhile fun moment => kind moment.before.stage)

theorem addedLately_cons {kind : Stage α → Bool} {moment : Moment α κ}
    (same : kind moment.before.stage) (lane : Lane) (past : List (Moment α κ)) :
    addedLately kind lane (moment :: past) =
      addedLately kind lane past ++ moment.added lane := by
  simp [addedLately, same, gather]

theorem addedLately_cons_of_not {kind : Stage α → Bool} {moment : Moment α κ}
    (other : kind moment.before.stage = false) (lane : Lane) (past : List (Moment α κ)) :
    addedLately kind lane (moment :: past) = [] := by
  simp [addedLately, other, gather]

namespace Executor

def play (x : Executor α κ) (past : List (Moment α κ)) :
    List (Move α κ) → List (Moment α κ) × Executor α κ
  | [] => (past, x)
  | m :: rest =>
    match x.move? m with
    | none => x.play past rest
    | some (y, events) => y.play (⟨x, m, events, y⟩ :: past) rest

theorem run_play {x : Executor α κ} {past : List (Moment α κ)} (run : Run past x)
    (moves : List (Move α κ)) : Run (x.play past moves).1 (x.play past moves).2 := by
  induction moves generalizing x past with
  | nil => exact run
  | cons m rest ih =>
    cases made : x.move? m with
    | none => simpa only [play, made] using ih run
    | some found =>
      obtain ⟨y, events⟩ := found
      simpa only [play, made] using ih (.move run made)

/-- What a move can lead to. A message that is handled is left to `handle`. -/
inductive Step (x : Executor α κ) :
    Move α κ → List (Event α κ) → Executor α κ → Prop
  | sent {m} (running : x.hasEnded = false) :
      Step x (.send m) [] { x with mailbox := x.mailbox ++ [m] }
  | idle {around} (stage : x.stage = .waiting) (mailbox : x.mailbox = []) :
      Step x (.tick around) [] x
  | woken {around m rest} (stage : x.stage = .waiting) (mailbox : x.mailbox = m :: rest) :
      Step x (.tick around) ({ x with mailbox := rest, stage := .mail .turn }.handle m).2
        ({ x with mailbox := rest, stage := .mail .turn }.handle m).1
  | stashed {around next m rest} (stage : x.stage = .mail next)
      (mailbox : x.mailbox = m :: rest) (barred : x.barred) (behind : m.overtakes = false) :
      Step x (.tick around) [] { x with mailbox := rest, stash := x.stash ++ [m] }
  | absorbed {around next m rest} (stage : x.stage = .mail next)
      (mailbox : x.mailbox = m :: rest) (passes : x.barred → m.overtakes) :
      Step x (.tick around) ({ x with mailbox := rest }.handle m).2
        ({ x with mailbox := rest }.handle m).1
  | passStarted {around next} (stage : x.stage = .mail next) (mailbox : x.mailbox = [])
      (opens : next = .perform ∨ next = .turn ∧ x.shutdown = false) :
      Step x (.tick around) x.startPass.2 x.startPass.1
  | yielded {around batch} (stage : x.stage = .mail (.boundary .normal batch))
      (mailbox : x.mailbox = []) (high : x.lanes.hasHigh)
      (unfinished : batch.isFinished = false) :
      Step x (.tick around) [] (x.putBack .normal batch)
  | continued {around lane batch} (stage : x.stage = .mail (.boundary lane batch))
      (mailbox : x.mailbox = [])
      (keeps : ¬(lane = .normal ∧ x.lanes.hasHigh ∧ ¬batch.isFinished)) :
      Step x (.tick around) [] { x with stage := .batch lane batch }
  | taskStarted {around next code rest} (stage : x.stage = .tasks next)
      (tasks : x.tasks = code :: rest) :
      Step x (.tick around) [.taskStarted code] { x with tasks := rest, stage := .task next }
  | held {around} (stage : x.stage = .tasks .opening) (tasks : x.tasks = [])
      (holding : around.holding) :
      Step x (.tick around) [.passHeld] { x with stage := .tasks .closing }
  | opened {around} (stage : x.stage = .tasks .opening) (tasks : x.tasks = [])
      (holding : around.holding = false) :
      Step x (.tick around) [] { x with stage := .selecting false }
  | interrupted {around lane batch} (stage : x.stage = .tasks (.before lane batch))
      (tasks : x.tasks = []) (halted : x.halted around) :
      Step x (.tick around) [] (x.putBack lane batch)
  | exhausted {around lane batch} (stage : x.stage = .tasks (.before lane batch))
      (tasks : x.tasks = []) (spent : batch.rest = []) :
      Step x (.tick around) [] { x with stage := .selecting true }
  | tokenDropped {around lane batch token rest}
      (stage : x.stage = .tasks (.before lane batch)) (tasks : x.tasks = [])
      (halted : x.halted around = false) (current : batch.rest = token :: rest)
      (discards : around.discards lane) :
      Step x (.tick around) [.tokenDropped lane token]
        { x with stage := .tasks (.after lane batch.advance) }
  | tokenStarted {around lane batch token rest}
      (stage : x.stage = .tasks (.before lane batch)) (tasks : x.tasks = [])
      (halted : x.halted around = false) (current : batch.rest = token :: rest)
      (discards : around.discards lane = false) :
      Step x (.tick around) [.tokenStarted lane token]
        { x with stage := .token lane batch false }
  | tokenLeft {around lane batch} (stage : x.stage = .tasks (.after lane batch))
      (tasks : x.tasks = []) :
      Step x (.tick around) [] { x with stage := .mail (.boundary lane batch) }
  | passLeft {around} (stage : x.stage = .tasks .closing) (tasks : x.tasks = []) :
      Step x (.tick around) [] { x with stage := .performs }
  | passHalted {around handled} (stage : x.stage = .selecting handled)
      (halted : x.halted around) :
      Step x (.tick around) (x.closePass handled).2 (x.closePass handled).1
  | passDone {around handled} (stage : x.stage = .selecting handled)
      (halted : x.halted around = false) (empty : x.lanes.isEmpty) :
      Step x (.tick around) (x.closePass handled).2 (x.closePass handled).1
  | selected {around handled lane batch lanes} (stage : x.stage = .selecting handled)
      (halted : x.halted around = false) (popped : x.lanes.pop? = some (lane, batch, lanes)) :
      Step x (.tick around) [] { x with lanes := lanes, stage := .batch lane batch }
  | completed {around lane batch} (stage : x.stage = .batch lane batch)
      (spent : batch.rest = []) :
      Step x (.tick around) [.batchCompleted lane batch.byteLength]
        { x with stage := .selecting true }
  | entered {around lane batch} (stage : x.stage = .batch lane batch)
      (unfinished : batch.rest ≠ []) :
      Step x (.tick around) [] { x with stage := .tasks (.before lane batch) }
  | rested {around} (stage : x.stage = .performs) (pending : x.pending = [])
      (shutdown : x.shutdown = false) :
      Step x (.tick around) [] { x with stage := .waiting }
  | performStarted {around code rest} (stage : x.stage = .performs)
      (pending : x.pending = code :: rest) (shutdown : x.shutdown = false) :
      Step x (.tick around) [.performStarted code]
        { x with pending := rest, stage := .perform }
  | released {around} (stage : x.stage = .releasing) (stash : x.stash = []) :
      Step x (.tick around) [] { x with stage := .mail .perform }
  | handedOver {around m rest} (stage : x.stage = .releasing) (stash : x.stash = m :: rest) :
      Step x (.tick around)
        ({ x with
          stash := rest
          stage := if m.isPerform then .mail .perform else .releasing }.handle m).2
        ({ x with
          stash := rest
          stage := if m.isPerform then .mail .perform else .releasing }.handle m).1
  | shutDown {around} (shutdown : x.shutdown)
      (stage : x.stage = .performs ∨ x.stage = .mail .turn ∧ x.mailbox = []) :
      Step x (.tick around) x.stop.2 x.stop.1
  | inert {around} (stage : x.stage = .ended) : Step x (.tick around) [] x
  | taskReturned {next} (stage : x.stage = .task next) :
      Step x .finish [] { x with stage := .tasks next }
  | performReturned (stage : x.stage = .perform) :
      Step x .finish []
        { x with stage := if x.pending.isEmpty then .releasing else .mail .perform }
  | tokenVoid {lane batch rolledBack} (stage : x.stage = .token lane batch rolledBack)
      (spent : batch.rest = []) :
      Step x .finish [] { x with stage := .selecting true }
  | tokenRolledBack {lane batch token rest} (stage : x.stage = .token lane batch true)
      (current : batch.rest = token :: rest) :
      Step x .finish [.tokenRolledBack lane token]
        ({ x with stopRequested := true }.putBack lane batch)
  | tokenExecuted {lane batch token rest} (stage : x.stage = .token lane batch false)
      (current : batch.rest = token :: rest) :
      Step x .finish [.tokenExecuted lane token]
        { x with stage := .tasks (.after lane batch.advance) }
  | added {lane batch} (running : x.stage.runsCode) :
      Step x (.add lane batch) (x.enqueue lane batch).2 (x.enqueue lane batch).1
  | queued {code} (running : x.stage.runsCode) (inPass : x.stage.inPass) :
      Step x (.schedule code) [] { x with tasks := x.tasks ++ [code] }
  | ranAtOnce {code} (running : x.stage.runsCode) (inPass : x.stage.inPass = false) :
      Step x (.schedule code) [.taskStarted code] x
  | rollBackAsked {lane batch rolledBack} (stage : x.stage = .token lane batch rolledBack) :
      Step x .rollBack [] { x with stage := .token lane batch true }
  | failed (running : x.stage.runsCode) : Step x .fail x.stop.2 x.stop.1

theorem step_tick (x : Executor α κ) (around : Surroundings)
    (idle : x.stage.runsCode = false) :
    Step x (.tick around) (x.tick around).2 (x.tick around).1 := by
  cases stage : x.stage with
  | waiting =>
    cases mailbox : x.mailbox with
    | nil => simpa only [tick, stage, mailbox] using Step.idle stage mailbox
    | cons m rest => simpa only [tick, stage, mailbox] using Step.woken stage mailbox
  | mail next =>
    cases mailbox : x.mailbox with
    | nil =>
      simp only [tick, stage, mailbox]
      cases next with
      | turn =>
        cases shutdown : x.shutdown with
        | false =>
          simpa [afterMail, shutdown] using Step.passStarted stage mailbox (.inr ⟨rfl, shutdown⟩)
        | true =>
          simpa [afterMail, shutdown] using Step.shutDown shutdown (.inr ⟨stage, mailbox⟩)
      | perform => exact .passStarted stage mailbox (.inl rfl)
      | boundary lane batch =>
        by_cases yields : lane = .normal ∧ x.lanes.hasHigh ∧ ¬batch.isFinished
        · rcases yields with ⟨rfl, high, unfinished⟩
          simpa [afterMail, high, unfinished] using
            Step.yielded stage mailbox high (by simpa using unfinished)
        · simpa only [afterMail, yields, if_false] using Step.continued stage mailbox yields
    | cons m rest =>
      simp only [tick, stage, mailbox]
      by_cases behind : x.barred ∧ ¬m.overtakes
      · rw [if_pos behind, ← stage]
        exact .stashed stage mailbox behind.1 (by simpa using behind.2)
      · rw [if_neg behind, ← stage]
        exact .absorbed stage mailbox fun barred => by simpa [barred] using behind
  | tasks next =>
    cases tasks : x.tasks with
    | cons code rest =>
      simpa only [tick, stage, tasks] using Step.taskStarted stage tasks
    | nil =>
      simp only [tick, stage, tasks]
      cases next with
      | opening =>
        cases holding : around.holding with
        | true => simpa [afterTasks, holding, closePass] using Step.held stage tasks holding
        | false => simpa [afterTasks, holding] using Step.opened stage tasks holding
      | before lane batch =>
        cases halted : x.halted around with
        | true => simpa [afterTasks, halted] using Step.interrupted stage tasks halted
        | false =>
          cases current : batch.rest with
          | nil => simpa [afterTasks, halted, current] using Step.exhausted stage tasks current
          | cons token rest =>
            cases discards : around.discards lane with
            | true =>
              simpa [afterTasks, halted, current, discards] using
                Step.tokenDropped stage tasks halted current discards
            | false =>
              simpa [afterTasks, halted, current, discards] using
                Step.tokenStarted stage tasks halted current discards
      | after lane batch => exact .tokenLeft stage tasks
      | closing => exact .passLeft stage tasks
  | selecting handled =>
    cases halted : x.halted around with
    | true => simpa only [tick, stage, halted, if_true] using Step.passHalted stage halted
    | false =>
      simp only [tick, stage, halted]
      cases popped : x.lanes.pop? with
      | none =>
        exact .passDone stage halted (Lanes.pop?_eq_none_iff.mp popped)
      | some found =>
        obtain ⟨lane, batch, lanes⟩ := found
        exact .selected stage halted popped
  | batch lane batch =>
    simp only [tick, stage]
    cases spent : batch.rest with
    | nil => simpa [Batch.isFinished, spent] using Step.completed stage spent
    | cons token rest =>
      simpa [Batch.isFinished, spent] using Step.entered stage (by simp [spent])
  | performs =>
    simp only [tick, stage]
    cases shutdown : x.shutdown with
    | true =>
      cases x.pending <;> exact .shutDown shutdown (.inl stage)
    | false =>
      cases pending : x.pending with
      | nil => simpa [pending, shutdown] using Step.rested stage pending shutdown
      | cons code rest => simpa [shutdown] using Step.performStarted stage pending shutdown
  | releasing =>
    cases stash : x.stash with
    | nil => simpa only [tick, stage, stash] using Step.released stage stash
    | cons m rest => simpa only [tick, stage, stash] using Step.handedOver stage stash
  | ended => simpa only [tick, stage] using Step.inert stage
  | task next => simp [stage, Stage.runsCode] at idle
  | token lane batch rolledBack => simp [stage, Stage.runsCode] at idle
  | perform => simp [stage, Stage.runsCode] at idle

theorem step_finish (x : Executor α κ) (running : x.stage.runsCode) :
    Step x .finish x.finish.2 x.finish.1 := by
  cases stage : x.stage with
  | task next => simpa only [finish, stage] using Step.taskReturned stage
  | perform => simpa only [finish, stage] using Step.performReturned stage
  | token lane batch rolledBack =>
    cases current : batch.rest with
    | nil => simpa only [finish, stage, current] using Step.tokenVoid stage current
    | cons token rest =>
      simp only [finish, stage, current]
      cases rolledBack with
      | true => exact .tokenRolledBack stage current
      | false => exact .tokenExecuted stage current
  | _ => simp [stage, Stage.runsCode] at running

theorem step_of_move? {x y : Executor α κ} {m : Move α κ} {events : List (Event α κ)}
    (made : x.move? m = some (y, events)) : Step x m events y := by
  cases m with
  | send m =>
    cases ended : x.hasEnded with
    | true => simp [move?, send?, ended] at made
    | false =>
      simp [move?, send?, ended] at made
      rcases made with ⟨rfl, rfl⟩
      exact .sent ended
  | rollBack =>
    cases stage : x.stage with
    | token lane batch rolledBack =>
      simp [move?, rollBack?, stage] at made
      rcases made with ⟨rfl, rfl⟩
      exact .rollBackAsked stage
    | _ => simp [move?, rollBack?, stage] at made
  | tick around =>
    cases running : x.stage.runsCode with
    | true => simp [move?, running] at made
    | false =>
      simp [move?, running] at made
      simpa only [made] using step_tick x around running
  | finish =>
    obtain ⟨running, made⟩ := Option.ite_none_right_eq_some.mp made
    simpa only [Option.some.inj made] using step_finish x running
  | add lane batch =>
    obtain ⟨running, made⟩ := Option.ite_none_right_eq_some.mp made
    have step : Step x (.add lane batch) _ _ := .added running
    simpa only [Option.some.inj made] using step
  | schedule code =>
    obtain ⟨running, made⟩ := Option.ite_none_right_eq_some.mp made
    cases inPass : x.stage.inPass with
    | true =>
      simp [schedule, inPass] at made
      rcases made with ⟨rfl, rfl⟩
      exact .queued running inPass
    | false =>
      simp [schedule, inPass] at made
      rcases made with ⟨rfl, rfl⟩
      exact .ranAtOnce running inPass
  | fail =>
    obtain ⟨running, made⟩ := Option.ite_none_right_eq_some.mp made
    simpa only [Option.some.inj made] using Step.failed running

/-! What handling a message changes. -/

theorem enqueue_eq (x : Executor α κ) (lane : Lane) (batch : Batch α) :
    x.enqueue lane batch =
      if batch.isNothing then (x, [])
      else ({ x with lanes := x.lanes.pushBack lane batch }, [.enqueued lane batch]) := rfl

theorem entering_enqueue (x : Executor α κ) (lane other : Lane) (batch : Batch α) :
    (x.enqueue other batch).2.flatMap (Event.entering lane) =
      if other = lane ∧ batch.isNothing = false then [batch] else [] := by
  rw [enqueue_eq]
  cases batch.isNothing <;> simp [Event.entering]

theorem waiting_enqueue (x : Executor α κ) (lane other : Lane) (batch : Batch α) :
    (x.enqueue other batch).1.lanes.waiting lane = x.lanes.waiting lane ++
      if other = lane ∧ batch.isNothing = false then [batch] else [] := by
  rw [enqueue_eq]
  cases batch.isNothing <;> simp [Lanes.waiting_pushBack, eq_comm]
  split <;> simp

@[simp] theorem stage_enqueue (x : Executor α κ) (lane : Lane) (batch : Batch α) :
    (x.enqueue lane batch).1.stage = x.stage := by
  rw [enqueue_eq]
  split <;> rfl

theorem handle_eq_enqueue (x : Executor α κ) (lane : Lane) (batch : Batch α) :
    x.handle (.deliver batch lane false) = x.enqueue lane batch := by
  simp [handle]

theorem event_handle {x : Executor α κ} {m : Message α κ} {e : Event α κ}
    (member : e ∈ (x.handle m).2) :
    (∃ lane batch, e = .enqueued lane batch) ∨ e = .slotFreed ∨ e = .discarded x.lanes := by
  cases m with
  | deliver batch lane slot =>
    by_cases nothing : batch.isNothing <;> cases slot <;>
      simp [handle, enqueue_eq, nothing] at member
    · exact .inr (.inl member)
    · exact .inl ⟨lane, batch, member⟩
    · rcases member with entered | freed
      · exact .inl ⟨lane, batch, entered⟩
      · exact .inr (.inl freed)
  | discardAll => exact .inr (.inr (by simpa [handle] using member))
  | _ => simp [handle] at member

theorem event_stop {x : Executor α κ} {e : Event α κ} (member : e ∈ x.stop.2) :
    e = .slotFreed ∨ e = .ended := by
  rcases List.mem_append.mp member with freed | ended
  · obtain ⟨-, -, rfl⟩ := List.mem_map.mp freed
    exact .inl rfl
  · exact .inr (List.mem_singleton.mp ended)

theorem handle_kept (x : Executor α κ) (m : Message α κ) :
    ∃ lanes tasks pending shutdown, (x.handle m).1 =
      { x with lanes := lanes, tasks := tasks, pending := pending, shutdown := shutdown } := by
  cases m with
  | deliver batch lane slot =>
    cases nothing : batch.isNothing <;> simp only [handle, enqueue_eq, nothing]
    · exact ⟨_, _, _, _, rfl⟩
    · exact ⟨_, _, _, _, rfl⟩
  | _ => exact ⟨_, _, _, _, rfl⟩

@[simp] theorem stage_handle (x : Executor α κ) (m : Message α κ) :
    (x.handle m).1.stage = x.stage := by
  obtain ⟨_, _, _, _, same⟩ := handle_kept x m
  rw [same]

@[simp] theorem stash_handle (x : Executor α κ) (m : Message α κ) :
    (x.handle m).1.stash = x.stash := by
  obtain ⟨_, _, _, _, same⟩ := handle_kept x m
  rw [same]

@[simp] theorem mailbox_handle (x : Executor α κ) (m : Message α κ) :
    (x.handle m).1.mailbox = x.mailbox := by
  obtain ⟨_, _, _, _, same⟩ := handle_kept x m
  rw [same]

@[simp] theorem stopRequested_handle (x : Executor α κ) (m : Message α κ) :
    (x.handle m).1.stopRequested = x.stopRequested := by
  obtain ⟨_, _, _, _, same⟩ := handle_kept x m
  rw [same]

theorem pending_handle (x : Executor α κ) (m : Message α κ) :
    (x.handle m).1.pending = [] ↔ x.pending = [] ∧ m.isPerform = false := by
  cases m with
  | deliver batch lane slot =>
    cases nothing : batch.isNothing <;> simp [handle, enqueue_eq, nothing, Message.isPerform]
  | perform code => simp [handle, Message.isPerform]
  | _ => simp [handle, Message.isPerform]

/-- What happens to a token happens to the first one of the batch in progress:
it starts or is dropped behind its tasks, and is executed or rolled back where
it was executing. -/
theorem token_event {x y : Executor α κ} {m : Move α κ} {events : List (Event α κ)}
    (step : Step x m events y) {e : Event α κ} (member : e ∈ events) (token : e.isToken) :
    ∃ lane batch token rest, batch.rest = token :: rest ∧
      (x.stage = .tasks (.before lane batch) ∧
          (e = .tokenStarted lane token ∨ e = .tokenDropped lane token) ∨
        ∃ rolledBack, x.stage = .token lane batch rolledBack ∧
          (e = .tokenExecuted lane token ∨ e = .tokenRolledBack lane token)) := by
  -- Messages are handled in three places, and none of them is about a token.
  have outside {z : Executor α κ} {n : Message α κ} : e ∉ (z.handle n).2 := by
    intro handled
    rcases event_handle handled with ⟨lane, batch, rfl⟩ | rfl | rfl <;> cases token
  cases step with
  | tokenStarted stage tasks halted current discards =>
    exact ⟨_, _, _, _, current, .inl ⟨stage, .inl (List.mem_singleton.mp member)⟩⟩
  | tokenDropped stage tasks halted current discards =>
    exact ⟨_, _, _, _, current, .inl ⟨stage, .inr (List.mem_singleton.mp member)⟩⟩
  | tokenRolledBack stage current =>
    exact ⟨_, _, _, _, current, .inr ⟨_, stage, .inr (List.mem_singleton.mp member)⟩⟩
  | tokenExecuted stage current =>
    exact ⟨_, _, _, _, current, .inr ⟨_, stage, .inl (List.mem_singleton.mp member)⟩⟩
  | woken stage mailbox | absorbed stage mailbox passes | handedOver stage stash =>
    exact absurd member outside
  | @added lane batch running =>
    rw [← handle_eq_enqueue] at member
    exact absurd member outside
  | @passHalted around handled stage halted | @passDone around handled stage halted empty =>
    cases handled <;> simp [closePass] at member
    rw [member] at token
    cases token
  | shutDown shutdown stage | failed running =>
    rcases event_stop member with rfl | rfl <;> cases token
  | _ =>
    simp [startPass] at member <;> rw [member] at token <;> cases token

theorem hasEnded_iff (x : Executor α κ) : x.hasEnded ↔ x.stage = .ended := by
  unfold hasEnded
  split <;> simp_all

theorem eq_of_hasEnded {x y : Executor α κ} {m : Move α κ} {events : List (Event α κ)}
    (ended : x.hasEnded) (made : x.move? m = some (y, events)) : y = x ∧ events = [] := by
  have stage := (hasEnded_iff x).mp ended
  cases m with
  | tick around => simpa [move?, tick, stage, Stage.runsCode, eq_comm] using made
  | send m => simp [move?, send?, ended] at made
  | rollBack => simp [move?, rollBack?, stage] at made
  | _ => simp [move?, stage, Stage.runsCode] at made

theorem hasEnded_play {x : Executor α κ} (ended : x.hasEnded) (past : List (Moment α κ))
    (moves : List (Move α κ)) : (x.play past moves).2.hasEnded := by
  induction moves generalizing past with
  | nil => exact ended
  | cons m rest ih =>
    cases made : x.move? m with
    | none => simpa only [play, made] using ih past
    | some found =>
      obtain ⟨y, events⟩ := found
      obtain ⟨rfl, -⟩ := eq_of_hasEnded ended made
      simpa only [play, made] using ih _

theorem running_before {x y : Executor α κ} {m : Move α κ} {events : List (Event α κ)}
    (made : x.move? m = some (y, events)) (running : y.hasEnded = false) :
    x.hasEnded = false := by
  cases ended : x.hasEnded with
  | false => rfl
  | true =>
    rw [(eq_of_hasEnded ended made).1, ended] at running
    exact running

end Executor

theorem Run.step {history : List (Moment α κ)} {x : Executor α κ} (run : Run history x)
    {moment : Moment α κ} (member : moment ∈ history) :
    moment.before.Step moment.move moment.events moment.after := by
  induction run with
  | new => cases member
  | move run made ih =>
    rcases List.mem_cons.mp member with rfl | earlier
    · exact Executor.step_of_move? made
    · exact ih earlier

/-- What enters an executor in some way, and leaves it first in, first out, has left it or
is still held. -/
theorem Run.flows {β : Type} (held : Executor α κ → List β) {enter leave : Moment α κ → List β}
    (new : held .new = [])
    (step : ∀ {past : List (Moment α κ)} {x y : Executor α κ} {m : Move α κ}
      {events : List (Event α κ)}, Run past x → x.Step m events y → y.hasEnded = false →
        held x ++ enter ⟨x, m, events, y⟩ = leave ⟨x, m, events, y⟩ ++ held y)
    {history : List (Moment α κ)} {x : Executor α κ} (run : Run history x)
    (running : x.hasEnded = false) : gather leave history ++ held x = gather enter history := by
  induction run with
  | new => rw [new]; rfl
  | @move past x y m events run made ih =>
    have before := ih (Executor.running_before made running)
    have after := step run (Executor.step_of_move? made) running
    calc gather leave past ++ leave ⟨x, m, events, y⟩ ++ held y
        = gather leave past ++ (held x ++ enter ⟨x, m, events, y⟩) := by
          rw [after, List.append_assoc]
      _ = gather enter past ++ enter ⟨x, m, events, y⟩ := by
          rw [← List.append_assoc, before]

theorem Run.leaves_prefix {β : Type} {held : Executor α κ → List β}
    {enter leave : Moment α κ → List β}
    (account : ∀ {history : List (Moment α κ)} {x : Executor α κ}, Run history x →
      x.hasEnded = false → gather leave history ++ held x = gather enter history)
    (ended : ∀ {x y : Executor α κ} {m : Move α κ} {events : List (Event α κ)},
      x.move? m = some (y, events) → y.hasEnded → leave ⟨x, m, events, y⟩ = [])
    {history : List (Moment α κ)} {x : Executor α κ} (run : Run history x) :
    gather leave history <+: gather enter history := by
  induction run with
  | new => exact List.nil_prefix
  | @move past x y m events run made ih =>
    cases gone : y.hasEnded with
    | false => exact ⟨_, account (run.move made) gone⟩
    | true =>
      rw [gather, gather, ended made gone, List.append_nil]
      exact ih.trans (List.prefix_append _ _)

end TerminalFeed
