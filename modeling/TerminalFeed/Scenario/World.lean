import TerminalFeed.Scenario.Script
import TerminalFeed.Scheduler.Pause

/-!
Scripts at work. A world holds the schedulers, the pauses, and a stack of what
is being done; `step` does the next small part of what is on top. Code that
fails is unwound to the flush, the thread or the executor that ran it.
-/

namespace TerminalFeed.Scenario

inductive Thread where
  | controller
  | executor (s : Nat)
  | other
  deriving DecidableEq

/-- Whose script an operation is in, and on which thread it runs. -/
structure Place where
  home : Nat
  thread : Thread

inductive Sink where
  | trace (home : Nat)
  | answer

inductive Work where
  | actions (s : Nat) (serial : Option Nat) (acts : List Action)
  | ops (place : Place) (ops : List Op)
  | report (sink : Sink) (op : Op) (r : Result)
  | flush (s : Nat) (thread : Thread) (sink : Sink) (op : Op) (flush : EffectQueue.Flush)
  | threadEnd
  | return (s : Nat)
  -- An executor runs until it is parked, idle or gone.
  | drive (s : Nat)

structure Setting where
  holding : Bool
  discardHigh : Bool
  discardNormal : Bool
  parked : Bool
  -- What the lanes held when the last gate was reached.
  high : Nat
  normal : Nat
  failure : Option String

def Setting.initial : Setting := ⟨false, false, false, false, 0, 0, none⟩

/-- A thread that was asked for but has not begun. It submits one batch. -/
structure Producer where
  id : String
  scheduler : Nat
  lane : Lane
  batch : Batch (Token ScriptToken)

structure World where
  seats : List (Seat × Setting)
  board : PauseBoard
  -- Delegates stay silent and answer no to everything.
  silent : Bool
  tokens : List (String × PauseScope)
  producers : List Producer
  joined : List (String × Bool)
  runs : List (Nat × Nat)
  nextSerial : Nat
  trace : List Entry
  answer : Result
  stack : List Work

namespace World

def seat? (w : World) (s : Nat) : Option Seat := (w.seats[s]?).map (·.1)

def setting (w : World) (s : Nat) : Setting :=
  ((w.seats[s]?).map (·.2)).getD .initial

def setSeat (w : World) (s : Nat) (seat : Seat) : World :=
  { w with seats := w.seats.modify s fun (_, setting) => (seat, setting) }

def modifySetting (w : World) (s : Nat) (f : Setting → Setting) : World :=
  { w with seats := w.seats.modify s fun (seat, setting) => (seat, f setting) }

def note (w : World) (s : Nat) (n : Note) : World :=
  { w with trace := ⟨s, n⟩ :: w.trace }

def delegateNote (w : World) (s : Nat) (n : Note) : World :=
  if w.silent then w else w.note s n

def push (w : World) (work : List Work) : World :=
  { w with stack := work ++ w.stack }

def surroundings (w : World) (s : Nat) : Surroundings :=
  let setting := w.setting s
  { paused := w.board.isPaused s
    holding := !w.silent && setting.holding
    discards := fun
      | .high => !w.silent && setting.discardHigh
      | .normal => !w.silent && setting.discardNormal }

def status (w : World) (s : Nat) (seat : Seat) : Status :=
  ⟨seat.slots.available, seat.slots.congestion, w.board.count (.only s), w.board.isPaused s⟩

def deliver (w : World) (sink : Sink) (op : Op) (r : Result) : World :=
  match sink with
  | .trace home => w.note home (.result op r)
  | .answer => { w with answer := r }

def startCode (w : World) (s : Nat) (code : Code) (behind : List Work) : World :=
  match code with
  | .script name acts => (w.note s (.task name)).push (.actions s none acts :: behind)
  | .gate => w.modifySetting s fun setting =>
      let lanes := ((w.seat? s).map (·.executor.lanes)).getD .empty
      { setting with
        parked := true, high := lanes.size .high, normal := lanes.size .normal }

def runsOf (w : World) (serial : Nat) : Nat := (w.runs.lookup serial).getD 0

def startToken (w : World) (s : Nat) : Token ScriptToken → World
  | .frame f => (w.note s (.executedFrame f)).push [.return s]
  | .terminal t =>
    let runs := (t.serial, w.runsOf t.serial + 1) :: w.runs.filter (·.1 != t.serial)
    ({ w with runs := runs }.note s (.executed t.name)).push
      [.actions s (some t.serial) t.acts, .return s]

/-- Shows what happened at scheduler `s`, where code that starts has `behind`
behind it. -/
def happened (behind : List Work) (s : Nat) (w : World) :
    Happening (Token ScriptToken) Code → World
  | .executor event =>
    match event with
    | .enqueued _ batch => w.delegateNote s (.willEnqueue batch.byteLength)
    | .taskStarted code | .performStarted code => w.startCode s code behind
    | .tokenStarted _ token => w.startToken s token
    | .batchCompleted _ byteLength => w.delegateNote s (.didExecute byteLength)
    | .inputHandled => w.delegateNote s .didHandleInput
    | .ended => { w with board := w.board.disown s }
    | _ => w
  | .slotReleased _ => w.note s .slotReleased
  | .submitted id accepted => { w with joined := (id, accepted) :: w.joined }

def act (w : World) (s : Nat) (behind : List Work)
    (act : Executor (Token ScriptToken) Code →
      Executor (Token ScriptToken) Code × List (Event (Token ScriptToken) Code)) :
    World :=
  match w.seat? s with
  | none => w
  | some seat =>
    let (seat, told) := seat.act act
    told.foldl (happened behind s) (w.setSeat s seat)

def outside (w : World) (s : Nat)
    (change : Seat → Seat × List (Happening (Token ScriptToken) Code)) : World :=
  match w.seat? s with
  | none => w
  | some seat =>
    let (seat, told) := change seat
    told.foldl (happened [] s) (w.setSeat s seat)

def wake (w : World) (members : List Nat) : World :=
  members.foldl (fun w s => w.outside s fun seat => ((seat.send .wake).1, [])) w

def releaseScope (w : World) (scope : PauseScope) : World :=
  match w.board.release? scope with
  | none => w
  | some (board, members) => { w with board := board }.wake members

/-- Takes a pause token and keeps it under a name; one that was kept there is
dropped afterwards. -/
def keepPause (w : World) (id : String) (scope : PauseScope) : World :=
  let w := { w with board := w.board.take scope }
  let old := w.tokens.lookup id
  let w := { w with tokens := (id, scope) :: w.tokens.filter (·.1 != id) }
  match old with
  | none => w
  | some scope => w.releaseScope scope

def changeEffects (w : World) (s : Nat)
    (change : EffectQueue Effect → EffectQueue Effect × Option Urgency) : World :=
  match w.seat? s with
  | none => w
  | some seat =>
    let (effects, told) := change seat.effects
    let w := w.setSeat s { seat with effects := effects }
    match told with
    | none => w
    | some urgency => w.note s (.notify urgency)

def freshTokens (w : World) : List TokenSpec → World × List (Token ScriptToken)
  | [] => (w, [])
  | spec :: rest =>
    let (w, token) : World × Token ScriptToken := match spec with
      | .scripted name acts =>
          ({ w with nextSerial := w.nextSerial + 1 }, .terminal ⟨w.nextSerial, name, acts⟩)
      | .frame f => (w, .frame f)
    let (w, tokens) := w.freshTokens rest
    (w, token :: tokens)

def freshBatch (w : World) (specs : List TokenSpec) (byteLength : Nat) :
    World × Batch (Token ScriptToken) :=
  let (w, tokens) := w.freshTokens specs
  (w, .ofTokens tokens byteLength)

/-- Unwinds the stack to what catches a failure: a flush, which gives up, a
thread, whose failure is its own, or an executor, which ends. -/
def unwind (message : String) (w : World) : List Work → World
  | [] => { w with stack := [] }
  | .flush s _ sink op _ :: rest =>
    ({ w with stack := rest }.outside s fun seat =>
      ({ seat with effects := seat.effects.abandon }, [])).deliver sink op (.failed message)
  | .threadEnd :: rest => { w with stack := rest }
  | .return s :: rest =>
    let w := { w with stack := rest }.modifySetting s fun setting =>
      { setting with failure := some message }
    w.act s [] Executor.stop
  | _ :: rest => w.unwind message rest

def fail (w : World) (message : String) : World := w.unwind message w.stack

def dropHandle (w : World) (s : Nat) : World :=
  match w.seat? s with
  | none => w
  | some seat =>
    if seat.hasHandle then
      let w := w.outside s Scheduler.dropHandle
      { w with board := w.board.disown s }
    else w

def runAction (w : World) (s : Nat) (serial : Option Nat) : Action → World
  | .log text => w.note s (.text text)
  | .add lane specs byteLength =>
    let (w, batch) := w.freshBatch specs byteLength
    w.act s [] fun x => x.enqueue lane batch
  | .task name acts => w.act s [] fun x => x.schedule (.script name acts)
  | .pause id => w.keepPause id (.only s)
  | .effect urgency name ops => w.changeEffects s fun queue => queue.push ⟨name, ops⟩ urgency
  | .flag bits => w.changeEffects s fun queue => queue.setFlags bits
  | .rollBack =>
    match (w.seat? s).bind fun seat => seat.executor.rollBack? with
    | some x => w.act s [] fun _ => (x, [])
    | none => w.fail Executor.rollBackRefused
  | .state =>
    match w.seat? s with
    | none => w
    | some seat =>
      w.note s (.state seat.executor.isExecutingToken (w.board.isPaused s)
        (seat.executor.lanes.size .high) (seat.executor.lanes.size .normal))
  | .ops ops => w.push [.ops ⟨s, .executor s⟩ ops]
  | .elsewhere ops => w.push [.ops ⟨s, .other⟩ ops, .threadEnd]
  | .dropHandle => w.dropHandle s
  | .firstRuns runs act =>
    if (serial.map w.runsOf).getD 0 ≤ runs then w.push [.actions s serial [act]] else w

def submissionResult : Submission → Result
  | .sent => .ok
  | .refused => .shutdown
  | .wait => .wouldBlock

def submit (w : World) (s : Nat) (seat : Seat) (lane : Lane) (specs : List TokenSpec)
    (byteLength : Nat) (needsSlot : Bool) : World × Result :=
  let (w, batch) := w.freshBatch specs byteLength
  let (seat, told, outcome) := seat.submit batch lane needsSlot
  (told.foldl (happened [] s) (w.setSeat s seat), submissionResult outcome)

def Producer.run (w : World) (p : Producer) : World :=
  match p.lane with
  | .normal => w.outside p.scheduler fun seat => seat.submitWaiting p.id p.batch
  | .high => w.outside p.scheduler fun seat =>
      let (seat, told, outcome) := seat.submit p.batch .high false
      (seat, told ++ [.submitted p.id (outcome == .sent)])

/-- Lets the producers begin. They do so once the thread that asked for them
waits or has nothing left to do. -/
def runProducers (w : World) : World :=
  w.producers.foldl Producer.run { w with producers := [] }

def sendMessage (w : World) (s : Nat) (seat : Seat)
    (m : Message (Token ScriptToken) Code) : World × Result :=
  let (seat, outcome) := seat.send m
  (w.setSeat s seat, submissionResult outcome)

/-- An operation that needs a handle. Flushes and the operations inside
`whilePaused` go on from the stack. -/
def runOnHandle (w : World) (place : Place) (sink : Sink) (op : Op) (s : Nat) (seat : Seat) :
    World :=
  let reply (answer : World × Result) : World := answer.1.deliver sink op answer.2
  match op.verb with
  | .add lane specs byteLength =>
    reply (w.submit s seat lane specs byteLength
      (lane == .normal && place.thread != .executor s))
  | .addAsync lane specs byteLength =>
    reply (w.submit s seat lane specs byteLength (lane == .normal))
  | .spawnAdd id lane specs byteLength =>
    let (w, batch) := w.freshBatch specs byteLength
    reply ({ w with producers := w.producers ++ [⟨id, s, lane, batch⟩] }, .ok)
  | .schedule => reply (w.sendMessage s seat .wake)
  | .discardAll => reply (w.sendMessage s seat .discardAll)
  | .task name acts => reply (w.sendMessage s seat (.task (.script name acts)))
  | .perform name acts => reply (w.sendMessage s seat (.perform (.script name acts)))
  | .whilePaused ops =>
    if place.thread = .executor s then w.push [.ops place ops, .report sink op .ok]
    else reply (w, .shutdown)
  | .effect urgency name ops =>
    reply (w.changeEffects s fun queue => queue.push ⟨name, ops⟩ urgency, .ok)
  | .flag bits => reply (w.changeEffects s fun queue => queue.setFlags bits, .ok)
  | .flush =>
    match seat.effects.begin? with
    | none => reply (w, .count 0)
    | some (effects, flush) =>
      (w.setSeat s { seat with effects := effects }).push
        [.flush s place.thread sink op flush]
  | .notifier on =>
    reply (w.setSeat s { seat with effects := seat.effects.setNotified on }, .ok)
  | .releaseHandler on =>
    reply (w.setSeat s { seat with
      slots := seat.slots.setHandler (if on then some 0 else none) }, .ok)
  | .shutdown => reply (w.outside s Scheduler.shutDown, .ok)
  | .status => reply (w, .status (w.status s seat))
  | .describe => reply (w, .text (seat.describe (w.board.count (.only s))))
  | _ => reply (w, .nothing)

def tokenText : String := "PauseToken \x7b released: false \x7d"

def takeToken (w : World) (id : String) : World × Result :=
  match w.tokens.lookup id with
  | none => (w, .noToken)
  | some scope =>
    ({ w with tokens := w.tokens.filter (·.1 != id) }.releaseScope scope, .text tokenText)

def runOp (w : World) (place : Place) (sink : Sink) (op : Op) : World :=
  let s := match op with
    | .mk target _ => target.getD place.home
  match op.verb with
  | .fail text => w.fail text
  | .join id =>
    let w := if w.producers.any (·.id == id) then w.runProducers else w
    let r := match w.joined.lookup id with
      | none => Result.nothing
      | some accepted => if accepted then .ok else .shutdown
    { w with joined := w.joined.filter (·.1 != id) }.deliver sink op r
  | .release id | .dropToken id =>
    let (w, r) := w.takeToken id
    w.deliver sink op r
  | .globalPause id => (w.keepPause id .all).deliver sink op .ok
  | .answers holding discardHigh discardNormal =>
    (w.modifySetting s fun setting => { setting with
      holding := holding.getD setting.holding
      discardHigh := discardHigh.getD setting.discardHigh
      discardNormal := discardNormal.getD setting.discardNormal }).deliver sink op .ok
  | _ =>
    match w.seat? s with
    | none => w.deliver sink op .noHandle
    | some seat =>
      if seat.hasHandle then w.runOnHandle place sink op s seat
      else w.deliver sink op .noHandle

def flushAction (s : Nat) (thread : Thread) (w : World) :
    EffectQueue.FlushAction Effect → World
  | .sync => w.delegateNote s .syncState
  | .run e => (w.note s (.effect e.name)).push [.ops ⟨s, thread⟩ e.ops]
  | .deliver bits => w.delegateNote s (.flags bits)

def flushStep (w : World) (s : Nat) (thread : Thread) (sink : Sink) (op : Op)
    (flush : EffectQueue.Flush) : World :=
  match flush with
  | .done ran => w.deliver sink op (.count ran)
  | _ =>
    match w.seat? s with
    | none => w
    | some seat =>
      let (effects, flush, actions) := seat.effects.flushStep flush
      let w := (w.setSeat s { seat with effects := effects }).push
        [.flush s thread sink op flush]
      actions.foldl (flushAction s thread) w

def rests (w : World) (s : Nat) : Bool :=
  match w.seat? s with
  | none => true
  | some seat =>
    (w.setting s).parked ||
      match seat.executor.stage with
      | .ended => true
      | .waiting => seat.executor.mailbox.isEmpty
      | _ => false

def step (w : World) : World :=
  match w.stack with
  | [] => w
  | .actions _ _ [] :: rest | .threadEnd :: rest => { w with stack := rest }
  | .ops _ [] :: rest => { w with stack := rest }.runProducers
  | .actions s serial (act :: acts) :: rest =>
    { w with stack := .actions s serial acts :: rest }.runAction s serial act
  | .ops place (op :: ops) :: rest =>
    { w with stack := .ops place ops :: rest }.runOp place (.trace place.home) op
  | .report sink op r :: rest => { w with stack := rest }.deliver sink op r
  | .flush s thread sink op flush :: rest =>
    { w with stack := rest }.flushStep s thread sink op flush
  | .return s :: rest => { w with stack := rest }.act s [] Executor.finish
  | .drive s :: rest =>
    if w.rests s then { w with stack := rest }
    else w.act s [.return s] fun x => x.tick (w.surroundings s)

def run : Nat → World → World
  | 0, w => w
  | steps + 1, w => if w.stack.isEmpty then w else run steps w.step

end World

end TerminalFeed.Scenario
