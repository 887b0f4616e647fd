import TerminalFeed.Decoder
import TerminalFeed.Scheduler.Idle

/-!
A replay cuts an input into chunks, decodes them, and submits what they hold
to a scheduler: ordinary frames on the normal lane, urgent ones on the high
lane. Once the decoder has detached, chunks pass through as they are. Behind
the last delivery comes a perform: what has been counted when it starts is the
result. The producer and the executor may take turns in any order.
-/

namespace TerminalFeed.Replay

abbrev ReplayToken := Token Bytes

structure Delivery where
  lane : Lane
  tokens : List ReplayToken
  byteLength : Nat

structure Progress where
  decoder : Decoder
  chunks : Nat
  detached : Option (Nat × Violation)

namespace Progress

/-- What a decoder that has just detached leaves to the terminal. -/
def passOn (p : Progress) : Progress × List ReplayToken :=
  match p.decoder.parser.violation with
  | none => (p, [])
  | some v =>
    let (decoder, rest) := p.decoder.takeRemaining
    ({ p with decoder := decoder, detached := some (p.chunks, v) },
      if rest.isEmpty then [] else [.terminal rest])

def read (p : Progress) (chunk : Bytes) : Progress × List Delivery :=
  match p.detached with
  | some _ =>
    ({ p with chunks := p.chunks + 1 }, [⟨.normal, [.terminal chunk], chunk.length⟩])
  | none =>
    let (decoder, frames) := (p.decoder.push chunk).drain
    let (p, rest) := { p with decoder := decoder }.passOn
    let (urgent, normal) := frames.partition Frame.isUrgent
    ({ p with chunks := p.chunks + 1 },
      ⟨.normal, normal.map .frame ++ rest, chunk.length⟩ ::
        if urgent.isEmpty then [] else [⟨.high, urgent.map .frame, 0⟩])

def readAll (p : Progress) : List Bytes → Progress × List Delivery
  | [] => (p, [])
  | chunk :: rest =>
    let (p, deliveries) := p.read chunk
    let (p, more) := p.readAll rest
    (p, deliveries ++ more)

end Progress

def chunksOf (size : Nat) : Nat → Bytes → List Bytes
  | 0, _ => []
  | fuel + 1, input =>
    if input.isEmpty then []
    else input.take size :: chunksOf size fuel (input.drop size)

/-- The chunks of an input; a size of zero counts as one. -/
def chunks (size : Nat) (input : Bytes) : List Bytes :=
  chunksOf (max size 1) input.length input

theorem flatten_chunksOf {size fuel : Nat} {input : Bytes} (positive : 0 < size)
    (enough : input.length ≤ fuel) : (chunksOf size fuel input).flatten = input := by
  induction fuel generalizing input with
  | zero => simp_all [chunksOf]
  | succ fuel ih =>
    rw [chunksOf]
    split
    · simp_all
    · rw [List.flatten_cons, ih (by rw [List.length_drop]; omega), List.take_append_drop]

@[simp] theorem flatten_chunks (size : Nat) (input : Bytes) :
    (chunks size input).flatten = input :=
  flatten_chunksOf (by omega) (Nat.le_refl _)

/-- What the terminal has executed, last first, and what was completed. -/
structure Tally where
  tokens : List ReplayToken
  batches : Nat
  bytes : Nat

namespace Tally

def zero : Tally := ⟨[], 0, 0⟩

def count (tally : Tally) : Happening ReplayToken Unit → Tally
  | .executor (.tokenStarted _ token) => { tally with tokens := token :: tally.tokens }
  | .executor (.batchCompleted _ byteLength) =>
      { tally with batches := tally.batches + 1, bytes := tally.bytes + byteLength }
  | _ => tally

end Tally

abbrev ReplayScheduler := Scheduler ReplayToken Unit Unit

def undisturbed : Surroundings := ⟨false, false, fun _ => false⟩

inductive Party where
  | producer
  | executor
  deriving DecidableEq, Repr

structure Play where
  left : List Delivery
  -- The perform behind the last delivery has been sent.
  closed : Bool
  scheduler : ReplayScheduler
  tally : Tally
  -- What had been counted when the perform started.
  result : Option Tally

namespace Play

def start (capacity : Nat) (deliveries : List Delivery) : Play :=
  ⟨deliveries, false, .ofCapacity capacity, .zero, none⟩

def see (play : Play) : Happening ReplayToken Unit → Play
  | .executor (.performStarted _) => { play with result := some play.tally }
  | happening => { play with tally := play.tally.count happening }

/-- The producer submits the next delivery, unless it needs a slot and none is
free. A delivery on the high lane needs none. -/
def submitNext (play : Play) : Play :=
  match play.left with
  | [] =>
    if play.closed then play
    else { play with closed := true, scheduler := (play.scheduler.send (.perform ())).1 }
  | d :: rest =>
    match play.scheduler.submit (.ofTokens d.tokens d.byteLength) d.lane
        (d.lane == .normal) with
    | (s, told, .sent) => told.foldl see { play with left := rest, scheduler := s }
    | _ => play

def work (play : Play) : Play :=
  let (s, told) := play.scheduler.advance undisturbed
  told.foldl see { play with scheduler := s }

def move (play : Play) : Party → Play
  | .producer => play.submitNext
  | .executor => play.work

/-- The order in which the executor moves whenever it can. -/
def next (play : Play) : Party :=
  if play.scheduler.executor.isIdle then .producer else .executor

def toEnd : Nat → Play → Play
  | 0, play => play
  | moves + 1, play =>
    if play.result.isSome then play else toEnd moves (play.move play.next)

/-- Moves enough for every token, every delivery and the perform. -/
def enough (play : Play) : Nat :=
  play.left.foldl (fun n d => n + 8 * d.tokens.length + 32) 32

def total (play : Play) : Tally :=
  let last := play.toEnd play.enough
  last.result.getD last.tally

end Play

structure Report where
  tokens : List ReplayToken
  chunks : Nat
  batches : Nat
  bytes : Nat
  detached : Option (Nat × Violation)

def run (decoder : Decoder) (capacity chunkSize : Nat) (input : Bytes) : Report :=
  let (p, deliveries) := Progress.readAll ⟨decoder, 0, none⟩ (chunks chunkSize input)
  let tally := (Play.start capacity deliveries).total
  ⟨tally.tokens.reverse, p.chunks, tally.batches, tally.bytes, p.detached⟩

end TerminalFeed.Replay
