import TerminalFeed.Scenario.World

/-!
Scenarios in phases. Between phases every executor is parked in a gate, so a
trace does not depend on which thread is faster: the operations of a phase are
all in the mailboxes before the first executor goes on.
-/

namespace TerminalFeed.Scenario

structure Phase where
  ops : List Op
  -- The operations are run while this scheduler is paused in mid-turn, with
  -- an empty mailbox, and not while it is parked in its gate.
  whilePaused : Option Nat

structure Plan where
  capacities : List Nat
  silent : Bool
  phases : List Phase

structure OpReport where
  result : Result
  trace : List Entry

structure Standing where
  status : Option Status
  alive : Bool
  high : Nat
  normal : Nat
  failure : Option String

structure PhaseReport where
  pause : Option Result
  before : List Entry
  ops : List OpReport
  trace : List Entry
  standings : List Standing

namespace World

/-- More steps than any scenario takes that comes to an end at all. -/
def enough : Nat := 1000000

def settle (w : World) (work : List Work) : World :=
  run enough { w with stack := work }

def takeTrace (w : World) : World × List Entry :=
  ({ w with trace := [] }, w.trace.reverse)

def alive (w : World) (s : Nat) : Bool :=
  ((w.seat? s).map fun seat => !seat.executor.hasEnded).getD false

def hasHandle (w : World) (s : Nat) : Bool :=
  ((w.seat? s).map (·.hasHandle)).getD false

def sendGate (w : World) (s : Nat) : World :=
  if w.alive s && w.hasHandle s then
    w.outside s fun seat => ((seat.send (.perform .gate)).1, [])
  else w

def drive (w : World) (s : Nat) : World := w.settle [.drive s]

def letGo (w : World) (s : Nat) : World :=
  if w.alive s then
    (w.modifySetting s fun setting => { setting with parked := false }).settle
      [.return s, .drive s]
  else w

def runTopOp (w : World) (op : Op) : World × OpReport :=
  let (w, _) := w.takeTrace
  let w := ({ w with answer := .nothing, stack := [] }.runOp ⟨0, .controller⟩ .answer op)
  let w := run enough w
  let (w, trace) := w.takeTrace
  (w, ⟨w.answer, trace⟩)

def runTopOps (w : World) : List Op → World × List OpReport
  | [] => (w.runProducers, [])
  | op :: ops =>
    let (w, report) := w.runTopOp op
    let (w, reports) := w.runTopOps ops
    (w, report :: reports)

def indices (w : World) : List Nat := List.range w.seats.length

def standing (w : World) (s : Nat) : Standing :=
  let setting := w.setting s
  let alive := w.alive s
  { status := (w.seat? s).bind fun seat =>
      if seat.hasHandle then some (w.status s seat) else none
    alive := alive
    high := if alive then setting.high else 0
    normal := if alive then setting.normal else 0
    failure := setting.failure }

def standings (w : World) : List Standing := w.indices.map w.standing

def gatedPhase (w : World) (ops : List Op) : World × PhaseReport :=
  let (w, reports) := w.runTopOps ops
  let w := w.indices.foldl sendGate w
  let w := w.indices.foldl letGo w
  let (w, trace) := w.takeTrace
  (w, ⟨none, [], reports, trace, w.standings⟩)

def pausedPhase (w : World) (s : Nat) (ops : List Op) : World × PhaseReport :=
  let refusal (w : World) (r : Result) : World × PhaseReport :=
    let (w, trace) := w.takeTrace
    (w, ⟨some r, [], [], trace, w.standings⟩)
  if !w.hasHandle s then refusal w .noHandle
  else
    let w := w.letGo s
    if !w.alive s then refusal w .shutdown
    else
      let (w, before) := w.takeTrace
      let w := (w.outside s fun seat => ((seat.send (.task .gate)).1, [])).drive s
      let (w, reports) := w.runTopOps ops
      let w := (w.sendGate s).letGo s
      let (w, trace) := w.takeTrace
      (w, ⟨some .ok, before, reports, trace, w.standings⟩)

def runPhase (w : World) (phase : Phase) : World × PhaseReport :=
  match phase.whilePaused with
  | none => w.gatedPhase phase.ops
  | some s => w.pausedPhase s phase.ops

def runPhases (w : World) : List Phase → List PhaseReport
  | [] => []
  | phase :: phases =>
    let (w, report) := w.runPhase phase
    report :: w.runPhases phases

def start (capacities : List Nat) (silent : Bool) : World :=
  { seats := capacities.map fun capacity => (.ofCapacity capacity, .initial)
    board := capacities.foldl (fun board _ => board.register) .empty
    silent := silent
    tokens := [], producers := [], joined := [], runs := [], nextSerial := 0, trace := []
    answer := .nothing, stack := [] }

end World

def Plan.reports (plan : Plan) : List PhaseReport :=
  let w := World.start plan.capacities plan.silent
  let w := w.indices.foldl World.sendGate w
  let w := w.indices.foldl World.drive w
  w.runPhases plan.phases

end TerminalFeed.Scenario
