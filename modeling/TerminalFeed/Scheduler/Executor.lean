import TerminalFeed.Scheduler.Lanes

/-!
The executor of one scheduler, as a machine that takes one small step at a
time. It owns the lanes, its tasks and its mailbox. Between steps, whoever
else runs may send messages; while a token, a task or a perform runs, its code
may also act on the executor directly, and `finish` says that it has returned.

A turn of the executor takes a message, takes in what else has arrived, makes
a drain pass, and then runs the performs that are due, with a drain pass after
each. A perform is a barrier: messages that may not overtake it are stashed
until it has run. A drain pass serves the high lane first, runs waiting tasks
between tokens, and leaves a normal batch between two tokens when the high
lane has work.
-/

namespace TerminalFeed

/-- What reaches an executor. Tokens are of type `α`; tasks and performs are
known by their code. -/
inductive Message (α κ : Type) where
  -- A batch for a lane. It may hold a delivery slot until it is there.
  | deliver (batch : Batch α) (lane : Lane) (slot : Bool)
  | task (code : κ)
  | perform (code : κ)
  | wake
  | discardAll
  | shutdown

namespace Message

variable {α κ : Type}

/-- Whether a message is handled although a perform is pending. -/
def overtakes : Message α κ → Bool
  | .deliver _ .high _ | .task _ | .wake | .shutdown => true
  | _ => false

def isPerform : Message α κ → Bool
  | .perform _ => true
  | _ => false

def holdsSlot : Message α κ → Bool
  | .deliver _ _ slot => slot
  | _ => false

end Message

inductive AfterMail (α : Type) where
  | turn
  | boundary (lane : Lane) (batch : Batch α)
  | perform

inductive AfterTasks (α : Type) where
  | opening
  | before (lane : Lane) (batch : Batch α)
  | after (lane : Lane) (batch : Batch α)
  | closing

inductive Stage (α : Type) where
  | waiting
  | mail (next : AfterMail α)
  | tasks (next : AfterTasks α)
  | task (next : AfterTasks α)
  -- Looks for a batch; `handled` if this pass has had one.
  | selecting (handled : Bool)
  | batch (lane : Lane) (batch : Batch α)
  | token (lane : Lane) (batch : Batch α) (rolledBack : Bool)
  | performs
  | perform
  -- Hands over what was stashed behind the perform that has just run.
  | releasing
  | ended

def AfterTasks.inPass {α : Type} : AfterTasks α → Bool
  | .closing => false
  | _ => true

/-- Whether a drain pass is under way. Its last tasks run when it is over. -/
def Stage.inPass {α : Type} : Stage α → Bool
  | .tasks next | .task next => next.inPass
  | .selecting _ | .batch .. | .token .. | .mail (.boundary ..) => true
  | _ => false

structure Executor (α κ : Type) where
  lanes : Lanes α
  tasks : List κ
  pending : List κ
  stash : List (Message α κ)
  mailbox : List (Message α κ)
  -- A token was rolled back in this pass.
  stopRequested : Bool
  shutdown : Bool
  stage : Stage α

/-- What surrounds a step: whether a pause is outstanding, whether batches are
to stay queued, and whose tokens are to be dropped. -/
structure Surroundings where
  paused : Bool
  holding : Bool
  discards : Lane → Bool

inductive Event (α κ : Type) where
  | enqueued (lane : Lane) (batch : Batch α)
  | slotFreed
  | discarded (lanes : Lanes α)
  | passStarted
  | passHeld
  | taskStarted (code : κ)
  | performStarted (code : κ)
  | tokenStarted (lane : Lane) (token : α)
  | tokenDropped (lane : Lane) (token : α)
  | tokenExecuted (lane : Lane) (token : α)
  | tokenRolledBack (lane : Lane) (token : α)
  | batchCompleted (lane : Lane) (byteLength : Nat)
  | inputHandled
  | ended

namespace Executor

variable {α κ : Type}

def new : Executor α κ := ⟨.empty, [], [], [], [], false, false, .waiting⟩

def hasEnded (x : Executor α κ) : Bool :=
  match x.stage with
  | .ended => true
  | _ => false

def send? (x : Executor α κ) (m : Message α κ) : Option (Executor α κ) :=
  if x.hasEnded then none else some { x with mailbox := x.mailbox ++ [m] }

def halted (x : Executor α κ) (around : Surroundings) : Bool :=
  x.shutdown || x.stopRequested || around.paused

/-- A batch of no tokens and no bytes is nothing. -/
def enqueue (x : Executor α κ) (lane : Lane) (batch : Batch α) :
    Executor α κ × List (Event α κ) :=
  if batch.isEmpty && batch.byteLength == 0 then (x, [])
  else ({ x with lanes := x.lanes.pushBack lane batch }, [.enqueued lane batch])

def handle (x : Executor α κ) : Message α κ → Executor α κ × List (Event α κ)
  | .deliver batch lane slot =>
    let (x, events) := x.enqueue lane batch
    (x, events ++ if slot then [.slotFreed] else [])
  | .task code => ({ x with tasks := x.tasks ++ [code] }, [])
  | .perform code => ({ x with pending := x.pending ++ [code] }, [])
  | .wake => (x, [])
  | .discardAll => ({ x with lanes := .empty }, [.discarded x.lanes])
  | .shutdown => ({ x with shutdown := true }, [])

/-- Ends the executor: all that it owns is dropped, and the slots of batches
that were never handled are free. -/
def stop (x : Executor α κ) : Executor α κ × List (Event α κ) :=
  let slots := (x.mailbox ++ x.stash).filter Message.holdsSlot
  ({ x with
      lanes := .empty, tasks := [], pending := [], stash := [], mailbox := []
      stage := .ended },
    slots.map (fun _ => .slotFreed) ++ [.ended])

def startPass (x : Executor α κ) : Executor α κ × List (Event α κ) :=
  ({ x with stopRequested := false, stage := .tasks .opening }, [.passStarted])

def closePass (x : Executor α κ) (handled : Bool) : Executor α κ × List (Event α κ) :=
  ({ x with stage := .tasks .closing }, if handled then [.inputHandled] else [])

def putBack (x : Executor α κ) (lane : Lane) (batch : Batch α) : Executor α κ :=
  { x with lanes := x.lanes.pushFront lane batch, stage := .selecting true }

def afterMail (x : Executor α κ) : AfterMail α → Executor α κ × List (Event α κ)
  | .turn => if x.shutdown then x.stop else x.startPass
  | .perform => x.startPass
  | .boundary lane batch =>
    if lane = .normal ∧ x.lanes.hasHigh ∧ ¬batch.isFinished then
      (x.putBack lane batch, [])
    else ({ x with stage := .batch lane batch }, [])

def afterTasks (x : Executor α κ) (around : Surroundings) :
    AfterTasks α → Executor α κ × List (Event α κ)
  | .opening =>
    if around.holding then
      let (x, events) := x.closePass false
      (x, .passHeld :: events)
    else ({ x with stage := .selecting false }, [])
  | .before lane batch =>
    if x.halted around then (x.putBack lane batch, [])
    else match batch.rest with
      | [] => ({ x with stage := .selecting true }, [])
      | token :: _ =>
        if around.discards lane then
          ({ x with stage := .tasks (.after lane batch.advance) }, [.tokenDropped lane token])
        else ({ x with stage := .token lane batch false }, [.tokenStarted lane token])
  | .after lane batch => ({ x with stage := .mail (.boundary lane batch) }, [])
  | .closing => ({ x with stage := .performs }, [])

def barred (x : Executor α κ) : Bool := !x.pending.isEmpty || !x.stash.isEmpty

def tick (x : Executor α κ) (around : Surroundings) :
    Executor α κ × List (Event α κ) :=
  match x.stage with
  | .waiting =>
    match x.mailbox with
    | [] => (x, [])
    | m :: rest => { x with mailbox := rest, stage := .mail .turn }.handle m
  | .mail next =>
    match x.mailbox with
    | [] => x.afterMail next
    | m :: rest =>
      if x.barred ∧ ¬m.overtakes then
        ({ x with mailbox := rest, stash := x.stash ++ [m] }, [])
      else { x with mailbox := rest }.handle m
  | .tasks next =>
    match x.tasks with
    | [] => x.afterTasks around next
    | code :: rest => ({ x with tasks := rest, stage := .task next }, [.taskStarted code])
  | .selecting handled =>
    if x.halted around then x.closePass handled
    else match x.lanes.pop? with
      | none => x.closePass handled
      | some (lane, batch, lanes) => ({ x with lanes := lanes, stage := .batch lane batch }, [])
  | .batch lane batch =>
    if batch.isFinished then
      ({ x with stage := .selecting true }, [.batchCompleted lane batch.byteLength])
    else ({ x with stage := .tasks (.before lane batch) }, [])
  | .performs =>
    match x.pending with
    | [] => if x.shutdown then x.stop else ({ x with stage := .waiting }, [])
    | code :: rest =>
      if x.shutdown then x.stop
      else ({ x with pending := rest, stage := .perform }, [.performStarted code])
  | .releasing =>
    match x.stash with
    | [] => ({ x with stage := .mail .perform }, [])
    | m :: rest =>
      { x with
        stash := rest
        stage := if m.isPerform then .mail .perform else .releasing }.handle m
  | .task _ | .token .. | .perform | .ended => (x, [])

def finish (x : Executor α κ) : Executor α κ × List (Event α κ) :=
  match x.stage with
  | .task next => ({ x with stage := .tasks next }, [])
  | .perform =>
    ({ x with stage := if x.pending.isEmpty then .releasing else .mail .perform }, [])
  | .token lane batch rolledBack =>
    match batch.rest with
    | [] => ({ x with stage := .selecting true }, [])
    | token :: _ =>
      if rolledBack then
        ({ x with stopRequested := true }.putBack lane batch, [.tokenRolledBack lane token])
      else
        ({ x with stage := .tasks (.after lane batch.advance) }, [.tokenExecuted lane token])
  | _ => (x, [])

/-! What running code may do. -/

def isExecutingToken (x : Executor α κ) : Bool :=
  match x.stage with
  | .token .. => true
  | _ => false

/-- Takes a task: it is queued during a drain pass, and else is the caller's to
run at once. -/
def schedule (x : Executor α κ) (code : κ) : Executor α κ × List (Event α κ) :=
  if x.stage.inPass then ({ x with tasks := x.tasks ++ [code] }, [])
  else (x, [.taskStarted code])

/-- Leaves the current token unconsumed. -/
def rollBack? (x : Executor α κ) : Option (Executor α κ) :=
  match x.stage with
  | .token lane batch _ => some { x with stage := .token lane batch true }
  | _ => none

def rollBackRefused : String :=
  "roll_back_current_token called outside token execution"

end Executor

end TerminalFeed
