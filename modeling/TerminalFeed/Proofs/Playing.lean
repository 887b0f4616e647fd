import TerminalFeed.Proofs.SlotBalance
import TerminalFeed.Proofs.Undisturbed
import TerminalFeed.Replay.Stream

/-!
A replay plays its deliveries, however the producer and the executor take turns. What it
has counted is what the executor has told of; and when the perform starts that is behind the
last delivery, all of them are over, and nothing more is counted.
-/

namespace TerminalFeed

namespace Event

variable {α κ : Type}

def begun : Event α κ → List α
  | .tokenStarted _ token => [token]
  | _ => []

theorem begun_lanes (e : Event α κ) : e.begun.Perm (e.started .high ++ e.started .normal) := by
  cases e with
  | tokenStarted lane token => cases lane <;> exact .refl _
  | _ => exact .refl _

end Event

theorem Moment.message_of_not_isSend {α κ : Type} {x y : Executor α κ} {m : Move α κ}
    {events : List (Event α κ)} (inside : m.isSend = false) :
    Moment.message ⟨x, m, events, y⟩ = [] := by
  cases m with
  | send m => cases inside
  | _ => rfl

/-- Where a token tells its lane, each lane has its own of all tokens that start. -/
theorem filter_begun {α κ : Type} {laneOf : α → Lane} {events : List (Event α κ)}
    (told : ∀ lane, ∀ token ∈ events.flatMap (Event.started lane), laneOf token = lane)
    (lane : Lane) :
    (events.flatMap Event.begun).filter (fun token => laneOf token == lane) =
      events.flatMap (Event.started lane) := by
  induction events with
  | nil => rfl
  | cons e rest ih =>
    have others := ih fun lane token member => told lane token (List.mem_append_right _ member)
    rw [List.flatMap_cons, List.filter_append, others, List.flatMap_cons]
    cases e with
    | tokenStarted other token =>
      have first : laneOf token = other := told other token (by simp [Event.started])
      by_cases same : other = lane <;> simp [Event.begun, Event.started, first, same]
    | _ => rfl

namespace Scheduler

variable {α κ ε : Type}

theorem settle_of_idle {s : Scheduler α κ ε} (idle : s.waiters = []) (events : List (Event α κ)) :
    (s.settle events).1 = { s with slots := { s.slots with
      available := s.slots.available + events.countP Event.freesSlot } } := by
  induction events generalizing s with
  | nil => rfl
  | cons e rest ih =>
    cases e with
    | slotFreed =>
      have freed := freeSlot_of_idle s (.inl idle)
      have after := ih (s := s.freeSlot.1) (by rw [freed])
      simp only [settle]
      rw [after, freed]
      simp [s.slots.exactCount.returned, Event.freesSlot, List.countP_cons, idle, Nat.add_assoc,
        Nat.add_comm]
    | _ => exact ih idle

theorem send_running {s : Scheduler α κ ε} (running : s.executor.hasEnded = false)
    (m : Message α κ) :
    ∃ x, s.executor.send? m = some x ∧ s.send m = ({ s with executor := x }, .sent) := by
  have sent : s.executor.send? m =
      some { s.executor with mailbox := s.executor.mailbox ++ [m] } := by
    simp [Executor.send?, running]
  exact ⟨_, sent, by rw [send, sent]⟩

theorem sendHeld_running {s : Scheduler α κ ε} (running : s.executor.hasEnded = false)
    (batch : Batch α) (lane : Lane) :
    ∃ x, s.executor.send? (.deliver batch lane true) = some x ∧
      s.sendHeld batch lane = ({ s with inHand := s.inHand - 1, executor := x }, [], .sent) := by
  rcases sendHeld_cases s batch lane with sent | ⟨gone, -⟩
  · exact sent
  · rw [running] at gone
    cases gone

theorem submit_running {s : Scheduler α κ ε} (running : s.executor.hasEnded = false)
    (batch : Batch α) (lane : Lane) (needsSlot : Bool) :
    (∃ x slots, s.executor.send? (.deliver batch lane needsSlot) = some x ∧
        slots.closed = s.slots.closed ∧ s.submit batch lane needsSlot =
          ({ s with executor := x, slots := slots }, [], .sent)) ∨
      (s.submit batch lane needsSlot).2.2 ≠ .sent ∧
        (s.slots.closed ∨ s.slots.available = 0) := by
  cases needsSlot with
  | false =>
    obtain ⟨x, sent, same⟩ := send_running running (.deliver batch lane false)
    exact .inl ⟨x, s.slots, sent, rfl, by simp [submit, same]⟩
  | true =>
    have full (refused : ∀ slots, s.slots.acquire ≠ .granted slots) :
        s.slots.closed ∨ s.slots.available = 0 := by
      have never := mt (s.slots.exactCount.granted _).mpr
        (refused { s.slots with available := s.slots.available - 1 })
      cases closed : s.slots.closed with
      | true => exact .inl rfl
      | false => exact .inr (by simpa [closed] using never)
    rcases submit_cases s batch lane with ⟨slots, granted, same⟩ | ⟨outcome, same⟩ | ⟨outcome, same⟩
    · have held : ({ s with slots := slots, inHand := s.inHand + 1 } :
          Scheduler α κ ε).executor.hasEnded = false := running
      obtain ⟨x, sent, same'⟩ := sendHeld_running held batch lane
      obtain ⟨-, -, rfl⟩ := (s.slots.exactCount.granted _).mp granted
      exact .inl ⟨x, { s.slots with available := s.slots.available - 1 }, sent, rfl,
        same.trans same'⟩
    · exact .inr ⟨by simp [same], full (by simp [outcome])⟩
    · exact .inr ⟨by simp [same], full (by simp [outcome])⟩

end Scheduler

namespace Replay

open Executor

def Delivery.batch (d : Delivery) : Batch ReplayToken := .ofTokens d.tokens d.byteLength

def Delivery.message (d : Delivery) : Message ReplayToken Unit :=
  .deliver d.batch d.lane (d.lane == .normal)

abbrev History := List (Moment ReplayToken Unit)

def Tally.counts (tally : Tally) (events : List (Event ReplayToken Unit)) : Tally :=
  events.foldl (fun tally e => tally.count (.executor e)) tally

def tallyOf (history : History) : Tally := Tally.zero.counts (gather Moment.events history)

theorem tallyOf_cons (moment : Moment ReplayToken Unit) (past : History) :
    tallyOf (moment :: past) = (tallyOf past).counts moment.events := by
  rw [tallyOf, gather, Tally.counts, List.foldl_append]
  rfl

theorem Tally.counts_eq (tally : Tally) (events : List (Event ReplayToken Unit)) :
    tally.counts events =
      ⟨(events.flatMap Event.begun).reverse ++ tally.tokens,
        tally.batches + (events.flatMap Event.report).length,
        tally.bytes + (events.flatMap Event.report).sum⟩ := by
  induction events generalizing tally with
  | nil => rfl
  | cons e rest ih =>
    rw [counts, List.foldl_cons, ← counts, ih]
    cases e with
    | tokenStarted lane token => simp [Tally.count, Event.begun, Event.report]
    | batchCompleted lane n =>
      simp only [Tally.count, Event.begun, Event.report, List.flatMap_cons, List.nil_append,
        List.singleton_append, List.length_cons, List.sum_cons, Tally.mk.injEq, true_and]
      omega
    | _ => rfl

theorem tallyOf_eq (history : History) :
    tallyOf history =
      ⟨((gather Moment.events history).flatMap Event.begun).reverse,
        ((gather Moment.events history).flatMap Event.report).length,
        ((gather Moment.events history).flatMap Event.report).sum⟩ := by
  rw [tallyOf, Tally.counts_eq]
  simp [Tally.zero]

theorem tallyOf_append {later past : History}
    (started : ∀ lane, gather (Moment.started lane) (later ++ past) =
      gather (Moment.started lane) past)
    (told : ∀ lane, gather (Moment.told lane) (later ++ past) = gather (Moment.told lane) past) :
    tallyOf (later ++ past) = tallyOf past := by
  have quiet {β : Type} {give : Event ReplayToken Unit → List β}
      {lane : Lane → Event ReplayToken Unit → List β}
      (split : ∀ e, (give e).Perm (lane .high e ++ lane .normal e))
      (none : ∀ side, gather (fun moment => moment.events.flatMap (lane side)) (later ++ past) =
        gather (fun moment => moment.events.flatMap (lane side)) past) :
      (gather Moment.events later).flatMap give = [] := by
    have empty (side : Lane) :
        gather (fun moment => moment.events.flatMap (lane side)) later = [] := by
      have same := none side
      rwa [gather_append, List.append_right_eq_self] at same
    have lanes := gather_lanes split later
    rw [empty, empty, gather_flatMap] at lanes
    exact lanes.eq_nil
  rw [tallyOf_eq, tallyOf_eq, gather_append, List.flatMap_append, List.flatMap_append,
    quiet Event.begun_lanes started, quiet Event.report_lanes told, List.append_nil,
    List.append_nil]

/-! What the deliveries ask for. -/

def laneTokens (deliveries : List Delivery) (lane : Lane) : List ReplayToken :=
  (deliveries.filter fun d => d.lane == lane).flatMap Delivery.tokens

def laneLengths (deliveries : List Delivery) (lane : Lane) : List Nat :=
  (deliveries.filter fun d => d.lane == lane).map Delivery.byteLength

theorem flatMap_bound_message {deliveries : List Delivery}
    (real : ∀ d ∈ deliveries, d.batch.isNothing = false) (lane : Lane) :
    (deliveries.map Delivery.message).flatMap (Message.bound lane) =
      (deliveries.filter fun d => d.lane == lane).map Delivery.batch := by
  induction deliveries with
  | nil => rfl
  | cons d rest ih =>
    obtain ⟨first, others⟩ := List.forall_mem_cons.mp real
    rw [List.map_cons, List.flatMap_cons, ih others]
    by_cases same : d.lane = lane <;> simp [Delivery.message, Message.bound, same, first]

theorem eq_of_prefixes {β : Type} {l l' : List β} (one : l <+: l') (other : l' <+: l) : l = l' :=
  one.eq_of_length_le other.length_le

namespace Play

/-- What the producer or the executor of a replay may do. The producer takes a slot and sends
its delivery in one go, or lets the executor act in between. -/
inductive Turn (play : Play) : Play → Prop
  | submits : Turn play play.submitNext
  | takes {d : Delivery} {rest : List Delivery} (left : play.left = d :: rest)
      (normal : d.lane = .normal) (idle : play.scheduler.inHand = 0) :
      Turn play { play with scheduler := play.scheduler.takeSlot.2 }
  | sends {d : Delivery} {rest : List Delivery} (left : play.left = d :: rest)
      (normal : d.lane = .normal) (held : 0 < play.scheduler.inHand)
      {s : ReplayScheduler} {told : List (Happening ReplayToken Unit)}
      (sent : play.scheduler.sendHeld d.batch d.lane = (s, told, .sent)) :
      Turn play (told.foldl see { play with left := rest, scheduler := s })
  | works : Turn play play.work

inductive Reached (capacity : Nat) (deliveries : List Delivery) : Play → Prop
  | start : Reached capacity deliveries (.start capacity deliveries)
  | turn {play play' : Play} (reached : Reached capacity deliveries play)
      (turn : Turn play play') : Reached capacity deliveries play'

theorem Reached.move {capacity : Nat} {deliveries : List Delivery} {play : Play}
    (reached : Reached capacity deliveries play) (party : Party) :
    Reached capacity deliveries (play.move party) := by
  cases party with
  | producer => exact reached.turn .submits
  | executor => exact reached.turn .works

theorem Reached.moves {capacity : Nat} {deliveries : List Delivery} {play : Play}
    (reached : Reached capacity deliveries play) (parties : List Party) :
    Reached capacity deliveries (parties.foldl Play.move play) := by
  induction parties generalizing play with
  | nil => exact reached
  | cons party rest ih => exact ih (reached.move party)

theorem Reached.toEnd {capacity : Nat} {deliveries : List Delivery} {play : Play}
    (reached : Reached capacity deliveries play) (moves : Nat) :
    Reached capacity deliveries (toEnd moves play) := by
  induction moves generalizing play with
  | zero => exact reached
  | succ moves ih =>
    rw [Play.toEnd]
    split
    · exact reached
    · exact ih (reached.move _)

inductive Step (play : Play) : Play → Prop
  | stays {s : ReplayScheduler} (executor : s.executor = play.scheduler.executor)
      (waiters : s.waiters = play.scheduler.waiters) : Step play { play with scheduler := s }
  | sends {d : Delivery} {rest : List Delivery} {s : ReplayScheduler}
      (left : play.left = d :: rest)
      (sent : play.scheduler.executor.send? d.message = some s.executor)
      (waiters : s.waiters = play.scheduler.waiters) :
      Step play { play with left := rest, scheduler := s }
  | closes {s : ReplayScheduler} (left : play.left = []) (opened : play.closed = false)
      (sent : play.scheduler.executor.send? (.perform ()) = some s.executor)
      (waiters : s.waiters = play.scheduler.waiters) :
      Step play { play with closed := true, scheduler := s }
  -- The executor works, and what it tells of is counted.
  | counts {m : Move ReplayToken Unit} {events : List (Event ReplayToken Unit)}
      {s : ReplayScheduler} (calm : m.isCalm) (inside : m.isSend = false)
      (quiet : .performStarted () ∉ events)
      (made : play.scheduler.executor.move? m = some (s.executor, events))
      (waiters : s.waiters = []) :
      Step play { play with scheduler := s, tally := play.tally.counts events }
  | performs {m : Move ReplayToken Unit} {s : ReplayScheduler} (calm : m.isCalm)
      (inside : m.isSend = false)
      (made : play.scheduler.executor.move? m = some (s.executor, [.performStarted ()]))
      (waiters : s.waiters = []) :
      Step play { play with scheduler := s, result := some play.tally }

theorem foldl_see_settle {s : ReplayScheduler} (idle : s.waiters = [])
    (events : List (Event ReplayToken Unit)) (play : Play) :
    (s.settle events).2.foldl see play =
      events.foldl (fun play e => play.see (.executor e)) play := by
  -- What the slots tell besides is not counted.
  have silent (play : Play) (handler : Option Nat) :
      (Scheduler.handlerCall handler).foldl see play = play := by
    cases handler <;> rfl
  induction events generalizing s play with
  | nil => rfl
  | cons e rest ih =>
    cases e with
    | slotFreed =>
      have freed := Scheduler.freeSlot_of_idle s (.inl idle)
      have after := ih (s := s.freeSlot.1) (by rw [freed]) (play.see (.executor .slotFreed))
      have told : s.freeSlot.2 = Scheduler.handlerCall s.slots.release.2 := by
        rw [Scheduler.freeSlot, idle]
        rfl
      simp only [Scheduler.settle, List.cons_append, List.foldl_cons, List.foldl_append, told,
        silent]
      exact after
    | _ => exact ih idle _

variable {play play' : Play}

inductive Submitted (play : Play) : Play → Prop
  | done (left : play.left = []) (closed : play.closed) : Submitted play play
  | waits {d : Delivery} {rest : List Delivery} (left : play.left = d :: rest)
      (full : play.scheduler.slots.closed ∨ play.scheduler.slots.available = 0) :
      Submitted play play
  | sends {d : Delivery} {rest : List Delivery} {x : Executor ReplayToken Unit}
      {slots : SlotPool} (left : play.left = d :: rest)
      (sent : play.scheduler.executor.send? d.message = some x)
      (closed : slots.closed = play.scheduler.slots.closed) :
      Submitted play { play with
        left := rest, scheduler := { play.scheduler with executor := x, slots := slots } }
  | closes {x : Executor ReplayToken Unit} (left : play.left = [])
      (opened : play.closed = false)
      (sent : play.scheduler.executor.send? (.perform ()) = some x) :
      Submitted play { play with
        closed := true, scheduler := { play.scheduler with executor := x } }

theorem submitted_submitNext (running : play.scheduler.executor.hasEnded = false) :
    play.Submitted play.submitNext := by
  cases left : play.left with
  | nil =>
    cases closed : play.closed with
    | true =>
      simp only [submitNext, left, closed, if_true]
      exact .done left closed
    | false =>
      obtain ⟨x, sent, same⟩ := Scheduler.send_running running (.perform ())
      simp only [submitNext, left, closed, same, Bool.false_eq_true, if_false]
      rw [← left]
      exact .closes left closed sent
  | cons d rest =>
    rcases Scheduler.submit_running running d.batch d.lane (d.lane == .normal) with
      ⟨x, slots, sent, closed, same⟩ | ⟨unsent, full⟩
    · rw [Delivery.batch] at same
      simp only [submitNext, left, same, List.foldl_nil]
      exact .sends left sent closed
    · rw [Delivery.batch] at unsent
      simp only [submitNext, left]
      split
      · rename_i outcome
        rw [outcome] at unsent
        exact absurd rfl unsent
      · exact .waits left full

theorem Submitted.step (submitted : play.Submitted play') : play.Step play' := by
  cases submitted with
  | done left closed => exact .stays rfl rfl
  | waits left full => exact .stays rfl rfl
  | sends left sent closed => exact .sends left sent rfl
  | @closes x left opened sent =>
    exact .closes (s := { play.scheduler with executor := x }) left opened sent rfl

theorem foldl_see {events : List (Event ReplayToken Unit)}
    (quiet : .performStarted () ∉ events) (play : Play) :
    events.foldl (fun play e => play.see (.executor e)) play =
      { play with tally := play.tally.counts events } := by
  induction events generalizing play with
  | nil => rfl
  | cons e rest ih =>
    rw [List.foldl_cons, ih fun later => quiet (.tail _ later)]
    cases e with
    | performStarted code => exact absurd (.head _) quiet
    | _ => rfl

theorem performStarted_alone {x y : Executor ReplayToken Unit} {m : Move ReplayToken Unit}
    {events : List (Event ReplayToken Unit)} (made : x.move? m = some (y, events))
    (starts : .performStarted () ∈ events) : events = [.performStarted ()] := by
  obtain ⟨stage, shutdown, rest, pending⟩ := performStarted_event (step_of_move? made) starts
  cases m with
  | tick around =>
    simp [move?, stage, Stage.runsCode, tick, pending, shutdown] at made
    exact made.2.symm
  | send m =>
    simp [move?] at made
    obtain ⟨-, -, rfl⟩ := made
    cases starts
  | rollBack => simp [move?, rollBack?, stage] at made
  | _ => simp [move?, stage, Stage.runsCode] at made

theorem work_eq (play : Play) :
    ∃ (m : Move ReplayToken Unit) (x : Executor ReplayToken Unit)
      (events : List (Event ReplayToken Unit)), m.isCalm ∧ m.isSend = false ∧
        play.scheduler.executor.move? m = some (x, events) ∧
        play.work =
          ({ play.scheduler with executor := x }.settle events).2.foldl see
            { play with scheduler := ({ play.scheduler with executor := x }.settle events).1 } := by
  obtain ⟨m, calm, inside, made⟩ : ∃ m : Move ReplayToken Unit, m.isCalm ∧ m.isSend = false ∧
      play.scheduler.executor.move? m = some (if play.scheduler.executor.stage.runsCode
        then play.scheduler.executor.finish else play.scheduler.executor.tick undisturbed) := by
    cases runs : play.scheduler.executor.stage.runsCode with
    | true => exact ⟨.finish, trivial, rfl, by simp only [move?, runs, if_true]⟩
    | false => exact ⟨.tick .calm, rfl, rfl, by simp only [move?, runs]; rfl⟩
  rw [work, Scheduler.advance, Scheduler.act]
  generalize (if play.scheduler.executor.stage.runsCode then play.scheduler.executor.finish
    else play.scheduler.executor.tick undisturbed) = outcome at made ⊢
  obtain ⟨x, events⟩ := outcome
  exact ⟨m, x, events, calm, inside, made, rfl⟩

theorem step_work (idle : play.scheduler.waiters = []) : play.Step play.work := by
  obtain ⟨m, x, events, calm, inside, made, same⟩ := work_eq play
  rw [same, foldl_see_settle (s := { play.scheduler with executor := x }) idle,
    Scheduler.settle_of_idle (s := { play.scheduler with executor := x }) idle]
  by_cases starts : .performStarted () ∈ events
  · obtain rfl := performStarted_alone made starts
    exact .performs calm inside made idle
  · rw [foldl_see starts]
    exact .counts calm inside starts made idle

theorem step_of_turn (turn : play.Turn play') (running : play.scheduler.executor.hasEnded = false)
    (idle : play.scheduler.waiters = []) : play.Step play' := by
  cases turn with
  | submits => exact (submitted_submitNext running).step
  | takes left normal held =>
    refine .stays ?_ ?_ <;>
      unfold Scheduler.takeSlot <;> split <;> rfl
  | @sends d rest left normal held s told sent =>
    obtain ⟨x, taken, same⟩ := Scheduler.sendHeld_running running d.batch d.lane
    obtain ⟨rfl, rfl⟩ : _ = s ∧ [] = told := by simpa [same] using sent
    have message : d.message = .deliver d.batch d.lane true := by
      simp [Delivery.message, normal]
    exact .sends left (by rw [message]; exact taken) rfl
  | works => exact step_work idle

def toSend (play : Play) : List (Message ReplayToken Unit) :=
  play.left.map Delivery.message ++ if play.closed then [] else [.perform ()]

/-- What a replay and the history of its executor have to say of each other. -/
structure Played (deliveries : List Delivery) (play : Play) (history : History) : Prop where
  run : Run history play.scheduler.executor
  calm : Undisturbed history
  idle : play.scheduler.waiters = []
  sent : gather Moment.message history ++ play.toSend =
    deliveries.map Delivery.message ++ [.perform ()]
  tally : play.tally = tallyOf history
  -- The result is what had been counted when a perform started.
  result : ∀ tally, play.result = some tally → ∃ later moment past,
    history = later ++ moment :: past ∧ .performStarted () ∈ moment.events ∧ tally = tallyOf past
  comes : (∃ moment ∈ history, .performStarted () ∈ moment.events) → play.result.isSome

namespace Played

variable {deliveries : List Delivery} {history : History}

theorem start (capacity : Nat) (deliveries : List Delivery) :
    Played deliveries (.start capacity deliveries) [] := by
  refine ⟨.new, .nil, rfl, rfl, rfl, ?_, ?_⟩
  · intro tally none
    cases none
  · rintro ⟨moment, member, -⟩
    cases member

theorem result_cons (played : Played deliveries play history) (moment : Moment ReplayToken Unit)
    (tally : Tally) (result : play.result = some tally) :
    ∃ later other past, moment :: history = later ++ other :: past ∧
      .performStarted () ∈ other.events ∧ tally = tallyOf past := by
  obtain ⟨later, other, past, rfl, starts, same⟩ := played.result tally result
  exact ⟨moment :: later, other, past, rfl, starts, same⟩

theorem comes_cons (played : Played deliveries play history) {moment : Moment ReplayToken Unit}
    (quiet : .performStarted () ∉ moment.events)
    (started : ∃ other ∈ moment :: history, .performStarted () ∈ other.events) :
    play.result.isSome := by
  obtain ⟨other, member, starts⟩ := started
  rcases List.mem_cons.mp member with rfl | earlier
  · exact absurd starts quiet
  · exact played.comes ⟨other, earlier, starts⟩

theorem step (played : Played deliveries play history) (step : play.Step play') :
    ∃ history', Played deliveries play' history' := by
  cases step with
  | stays executor waiters =>
    refine ⟨history, ?_, played.calm, ?_, played.sent, played.tally, played.result, played.comes⟩
    · rw [executor]
      exact played.run
    · rw [waiters, played.idle]
  | @sends d rest s left sent waiters =>
    have made : play.scheduler.executor.move? (.send d.message) = some (s.executor, []) := by
      simp [move?, sent]
    refine ⟨_, played.run.move made, played.calm.cons rfl, ?_, ?_, ?_, played.result_cons _,
      played.comes_cons List.not_mem_nil⟩
    · rw [waiters, played.idle]
    · rw [← played.sent, gather, toSend, toSend, left]
      simp [Moment.message]
    · rw [tallyOf_cons]
      exact played.tally
  | @closes s left opened sent waiters =>
    have made : play.scheduler.executor.move? (.send (.perform ())) = some (s.executor, []) := by
      simp [move?, sent]
    refine ⟨_, played.run.move made, played.calm.cons rfl, ?_, ?_, ?_, played.result_cons _,
      played.comes_cons List.not_mem_nil⟩
    · rw [waiters, played.idle]
    · rw [← played.sent, gather, toSend, toSend, left, opened]
      simp [Moment.message]
    · rw [tallyOf_cons]
      exact played.tally
  | @counts m events s move inside quiet made waiters =>
    refine ⟨_, played.run.move made, played.calm.cons move, waiters, ?_, ?_,
      played.result_cons _, played.comes_cons quiet⟩
    · rw [gather, Moment.message_of_not_isSend inside, List.append_nil]
      exact played.sent
    · rw [tallyOf_cons, ← played.tally]
  | @performs m s move inside made waiters =>
    refine ⟨_, played.run.move made, played.calm.cons move, waiters, ?_, ?_, ?_, fun _ => rfl⟩
    · rw [gather, Moment.message_of_not_isSend inside, List.append_nil]
      exact played.sent
    · rw [tallyOf_cons]
      exact played.tally
    · rintro tally ⟨⟩
      exact ⟨[], _, history, rfl, .head _, played.tally⟩

end Played

theorem Reached.played {capacity : Nat} {deliveries : List Delivery}
    (reached : Reached capacity deliveries play) : ∃ history, Played deliveries play history := by
  induction reached with
  | start => exact ⟨[], .start capacity deliveries⟩
  | turn reached turn ih =>
    obtain ⟨history, played⟩ := ih
    exact played.step (step_of_turn turn (played.calm.executor played.run).running played.idle)

structure Over (deliveries : List Delivery) (tally : Tally) (history : History) : Prop where
  started : ∀ lane, gather (Moment.started lane) history = laneTokens deliveries lane
  executed : ∀ lane, gather (Moment.executed lane) history = laneTokens deliveries lane
  told : ∀ lane, gather (Moment.told lane) history = laneLengths deliveries lane
  tally : tally = tallyOf history

namespace Played

variable {deliveries : List Delivery} {history past : History}

theorem begun_prefix (played : Played deliveries play history)
    (real : ∀ d ∈ deliveries, d.batch.isNothing = false) (lane : Lane) :
    gather (Moment.started lane) history <+: laneTokens deliveries lane ∧
      gather (Moment.told lane) history <+: laneLengths deliveries lane := by
  obtain ⟨started, told⟩ := played.calm.begun_prefix played.run lane
  have sent : (gather Moment.message history).flatMap (Message.bound lane) <+:
      (deliveries.filter fun d => d.lane == lane).map Delivery.batch := by
    have whole := congrArg (List.flatMap (Message.bound lane)) played.sent
    simp only [List.flatMap_append, flatMap_bound_message real] at whole
    exact ⟨play.toSend.flatMap (Message.bound lane), whole.trans (List.append_nil _)⟩
  obtain ⟨later, whole⟩ := sent
  constructor
  · apply started.trans
    refine ⟨later.flatMap Batch.rest, ?_⟩
    rw [← List.flatMap_append, whole, List.flatMap_map]
    rfl
  · apply told.trans
    refine ⟨later.map Batch.byteLength, ?_⟩
    rw [← List.map_append, whole, List.map_map]
    rfl

/-- When the perform starts, all deliveries are over. -/
theorem over_of_performStarted {later : History} {moment : Moment ReplayToken Unit}
    (played : Played deliveries play (later ++ moment :: past))
    (real : ∀ d ∈ deliveries, d.batch.isNothing = false)
    (starts : .performStarted () ∈ moment.events) (lane : Lane) :
    laneTokens deliveries lane <+: gather (Moment.executed lane) past ∧
      gather (Moment.executed lane) past <+: gather (Moment.started lane) past ∧
      laneLengths deliveries lane <+: gather (Moment.told lane) past := by
  obtain ⟨run, -⟩ := played.run.earlier (played.calm.executor played.run).running
  cases run with
  | @move past x y m events run made =>
    obtain ⟨stage, -, rest, pending⟩ := performStarted_event (step_of_move? made) starts
    have calm : Undisturbed past := fun other member =>
      played.calm other (List.mem_append_right _ (.tail _ member))
    obtain ⟨ahead, behind, sent, done⟩ := calm.over_of_pending run stage pending
    -- The only perform is the last message of all.
    obtain rfl : deliveries.map Delivery.message = ahead := by
      have whole := played.sent
      rw [gather_append, gather, sent] at whole
      simp only [List.append_assoc, List.cons_append] at whole
      refine ((List.append_cons_inj_of_notMem ?_ ?_).mp whole.symm).1
      · simp [Delivery.message]
      · exact List.not_mem_nil
    obtain ⟨tokens, lengths⟩ := done lane
    rw [flatMap_bound_message real] at tokens lengths
    rw [List.flatMap_map] at tokens
    rw [List.map_map] at lengths
    refine ⟨tokens, ?_, lengths⟩
    rw [calm.started_eq run]
    exact List.prefix_append _ _

theorem completes {tally : Tally} (played : Played deliveries play history)
    (real : ∀ d ∈ deliveries, d.batch.isNothing = false) (result : play.result = some tally) :
    Over deliveries tally history ∧ play.tally = tally := by
  obtain ⟨later, moment, past, rfl, starts, rfl⟩ := played.result tally result
  have grows {β : Type} (give : Moment ReplayToken Unit → List β) :
      gather give past <+: gather give (later ++ moment :: past) := by
    rw [gather_append, gather, List.append_assoc]
    exact List.prefix_append _ _
  have started (lane : Lane) :
      gather (Moment.started lane) past = laneTokens deliveries lane ∧
        gather (Moment.started lane) (later ++ moment :: past) = laneTokens deliveries lane := by
    obtain ⟨all, begun, -⟩ := played.over_of_performStarted real starts lane
    have most := (played.begun_prefix real lane).1
    exact ⟨eq_of_prefixes ((grows _).trans most) (all.trans begun),
      eq_of_prefixes most (all.trans (begun.trans (grows _)))⟩
  have told (lane : Lane) :
      gather (Moment.told lane) past = laneLengths deliveries lane ∧
        gather (Moment.told lane) (later ++ moment :: past) = laneLengths deliveries lane := by
    obtain ⟨-, -, all⟩ := played.over_of_performStarted real starts lane
    have most := (played.begun_prefix real lane).2
    exact ⟨eq_of_prefixes ((grows _).trans most) all,
      eq_of_prefixes most (all.trans (grows _))⟩
  have final : tallyOf (later ++ moment :: past) = tallyOf past := by
    rw [List.append_cons] at started told ⊢
    exact tallyOf_append (fun lane => (started lane).2.trans (started lane).1.symm)
      fun lane => (told lane).2.trans (told lane).1.symm
  refine ⟨⟨fun lane => (started lane).2, ?_, fun lane => (told lane).2, final.symm⟩, ?_⟩
  · intro lane
    obtain ⟨all, -, -⟩ := played.over_of_performStarted real starts lane
    apply eq_of_prefixes
    · rw [← (started lane).2, played.calm.started_eq played.run]
      exact List.prefix_append _ _
    · exact all.trans (grows _)
  · rw [played.tally, final]

end Played

end Play

end Replay

end TerminalFeed
