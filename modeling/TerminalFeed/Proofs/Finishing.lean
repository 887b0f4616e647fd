import TerminalFeed.Proofs.Layers
import TerminalFeed.Proofs.Replaying
import TerminalFeed.Replay.Command

/-!
A replay comes to its end. Every step leaves an executor that nothing disturbs less to do,
until it waits for mail; and while it waits all slots are free, so that the producer can send
what it has left. So the moves that a replay is given are enough, and its report is that of
the whole stream.
-/

namespace TerminalFeed

variable {α κ : Type}

/-- The steps that a batch takes at most, from its lane on: six for a token. -/
def Batch.toll (batch : Batch α) : Nat := 6 * batch.rest.length + 2

namespace Lanes

def toll (lanes : Lanes α) : Nat := ((lanes.high ++ lanes.normal).map Batch.toll).sum

theorem toll_pushFront (lanes : Lanes α) (lane : Lane) (batch : Batch α) :
    (lanes.pushFront lane batch).toll = lanes.toll + batch.toll := by
  cases lane <;> simp [toll, pushFront] <;> omega

theorem toll_pushBack (lanes : Lanes α) (lane : Lane) (batch : Batch α) :
    (lanes.pushBack lane batch).toll = lanes.toll + batch.toll := by
  cases lane <;> simp [toll, pushBack] <;> omega

end Lanes

/-- The steps that a message may cost from the stash on. A perform opens another pass. -/
def Message.toll : Message α κ → Nat
  | .deliver batch .. => batch.toll + 6
  | _ => 13

/-- The steps left until the executor waits, but for those of what it has yet to take up. -/
def Stage.toll : Stage α → Nat
  | .mail (.boundary _ b) => b.toll + 4
  | .mail _ => 5
  | .tasks .opening => 4
  | .tasks (.before _ b) => b.toll + 1
  | .tasks (.after _ b) => b.toll + 5
  | .tasks .closing => 2
  | .selecting _ => 3
  | .batch _ b => b.toll + 2
  | .token _ b _ => b.toll
  | .performs => 1
  | .perform => 7
  | .releasing => 6
  | .waiting | .task _ | .ended => 0

namespace Executor

/-- The steps that an executor has left at most. A message takes one from the mailbox to
the stash, and a pending perform seven. -/
def load (x : Executor α κ) : Nat :=
  x.lanes.toll + 7 * x.pending.length + ((x.stash ++ x.mailbox).map Message.toll).sum +
    x.mailbox.length + x.stage.toll

variable {x y : Executor α κ} {m : Move α κ} {events : List (Event α κ)}

theorem load_send? {n : Message α κ} (sent : x.send? n = some y) :
    y.load = x.load + n.toll + 1 := by
  have step : Step x (.send n) [] y := step_of_move? (by simp [move?, sent])
  cases step with
  | sent running =>
    simp [load]
    omega

theorem load_handle (x : Executor α κ) {n : Message α κ} (plain : n.isPlain) :
    (x.handle n).1.load + 6 ≤ x.load + n.toll := by
  cases n with
  | deliver batch lane slot =>
    cases nothing : batch.isNothing with
    | true => simp [handle, enqueue_eq, nothing, load, Message.toll]
    | false =>
      simp [handle, enqueue_eq, nothing, load, Lanes.toll_pushBack, Message.toll]
      omega
  | perform code =>
    simp only [handle, load, Message.toll, List.length_append, List.length_singleton]
    omega
  | _ => cases plain

theorem Calm.load_lt (calm : x.Calm) (step : Step x m events y) (unfinished : x.stage.unfinished)
    (move : m.isCalm) (inside : m.isSend = false) (busy : x.isIdle = false) :
    y.load < x.load := by
  have undisturbed := calm.stage
  cases step with
  | sent running => cases inside
  | idle stage mailbox => simp [isIdle, stage, mailbox] at busy
  | @woken around n rest stage mailbox =>
    have handled := load_handle { x with mailbox := rest, stage := .mail .turn }
      (calm.mail n (by simp [mailbox]))
    simp [load, stage, mailbox, Stage.toll] at handled ⊢
    omega
  | @absorbed around next n rest stage mailbox passes =>
    have handled := load_handle { x with mailbox := rest } (calm.mail n (by simp [mailbox]))
    simp [load, mailbox] at handled ⊢
    omega
  | @handedOver around n rest stage stash =>
    have handled := load_handle
      { x with stash := rest, stage := if n.isPerform then .mail .perform else .releasing }
      (calm.mail n (by simp [stash]))
    have stays : (if n.isPerform then .mail .perform else .releasing : Stage α).toll ≤ 6 := by
      split <;> simp [Stage.toll]
    simp [load, stage, stash, Stage.toll] at handled stays ⊢
    omega
  | stashed stage mailbox barred behind => simp [load, mailbox]
  | yielded stage mailbox high unfinished =>
    simp [load, putBack, Lanes.toll_pushFront, stage, Stage.toll]
    omega
  | @selected around handled lane batch lanes stage halted popped =>
    obtain ⟨same, -⟩ := Lanes.pop?_eq_some_iff.mp popped
    simp [load, same, Lanes.toll_pushFront, stage, Stage.toll]
    omega
  | passStarted stage mailbox opens =>
    rcases opens with rfl | ⟨rfl, -⟩ <;> simp [load, startPass, stage, Stage.toll]
  | exhausted stage tasks spent =>
    rw [stage] at unfinished
    exact absurd spent unfinished
  | tokenVoid stage spent =>
    rw [stage] at unfinished
    exact absurd spent unfinished
  | tokenExecuted stage current | tokenDropped stage tasks halted current discards =>
    simp [load, stage, Stage.toll, Batch.toll, current]
    omega
  | completed stage spent =>
    simp [load, stage, Stage.toll, Batch.toll]
  | performStarted stage pending shutdown =>
    simp [load, stage, pending, Stage.toll]
    omega
  | performReturned stage =>
    cases pending : x.pending <;> simp [load, stage, pending, Stage.toll]
  | taskStarted stage tasks => simp [calm.tasks] at tasks
  | interrupted stage tasks halted =>
    obtain rfl := move
    rw [calm.halted] at halted
    cases halted
  | shutDown shutdown stage =>
    rw [calm.shutdown] at shutdown
    cases shutdown
  | inert stage | taskReturned stage | tokenRolledBack stage current =>
    rw [stage] at undisturbed
    cases undisturbed
  | added | queued | ranAtOnce | rollBackAsked | failed => cases move
  | _ => simp [load, closePass, Stage.toll, *]

end Executor

theorem Event.eq_performStarted {e : Event α κ} {code : κ}
    (same : e.effect? = some (.perform code)) : e = .performStarted code := by
  cases e with
  | enqueued lane batch => cases lane <;> cases same
  | performStarted other => simpa [effect?] using same
  | _ => cases same

namespace Replay

open Executor

namespace Play

variable {play : Play} {capacity : Nat} {deliveries : List Delivery} {history : History}

def toGo (play : Play) : Nat :=
  play.scheduler.executor.load + (play.toSend.map fun m => m.toll + 2).sum

theorem foldl_see_keeps (told : List (Happening ReplayToken Unit)) (play : Play) :
    (told.foldl see play).scheduler = play.scheduler ∧
      (told.foldl see play).toSend = play.toSend := by
  induction told generalizing play with
  | nil => exact ⟨rfl, rfl⟩
  | cons happening rest ih =>
    obtain ⟨scheduler, toSend⟩ := ih (play.see happening)
    rw [List.foldl_cons, scheduler, toSend]
    cases happening with
    | executor e => cases e <;> exact ⟨rfl, rfl⟩
    | _ => exact ⟨rfl, rfl⟩

theorem Reached.reachable (reached : Reached capacity deliveries play) :
    Scheduler.Reachable capacity play.scheduler := by
  induction reached with
  | start => exact .new
  | @turn play play' reached turn ih =>
    cases turn with
    | submits =>
      unfold submitNext
      split
      · split
        · exact ih
        · exact ih.turn (.message rfl)
      · split
        · rename_i s told outcome
          obtain rfl : _ = s := congrArg Prod.fst outcome
          rw [(foldl_see_keeps told _).1]
          exact ih.turn .submits
        · exact ih
    | takes left normal held => exact ih.turn .takes
    | @sends d rest left normal held s told sent =>
      obtain rfl : _ = s := congrArg Prod.fst sent
      rw [(foldl_see_keeps told _).1]
      exact ih.turn (.sends held)
    | works =>
      obtain ⟨m, x, events, -, inside, made, same⟩ := work_eq play
      rw [same, (foldl_see_keeps _ _).1]
      exact ih.turn (.acts inside made)

theorem work_keeps (idle : play.scheduler.waiters = []) :
    ∃ (m : Move ReplayToken Unit) (x : Executor ReplayToken Unit)
      (events : List (Event ReplayToken Unit)) (slots : SlotPool), m.isCalm ∧ m.isSend = false ∧
        play.scheduler.executor.move? m = some (x, events) ∧
        slots.closed = play.scheduler.slots.closed ∧
        play.work.scheduler = { play.scheduler with executor := x, slots := slots } ∧
        play.work.toSend = play.toSend := by
  obtain ⟨m, x, events, calm, inside, made, same⟩ := work_eq play
  obtain ⟨scheduler, toSend⟩ := foldl_see_keeps
    ({ play.scheduler with executor := x }.settle events).2
    { play with scheduler := ({ play.scheduler with executor := x }.settle events).1 }
  rw [← same, Scheduler.settle_of_idle (s := { play.scheduler with executor := x }) idle]
    at scheduler
  rw [← same] at toSend
  exact ⟨m, x, events, { play.scheduler.slots with
    available := play.scheduler.slots.available + events.countP Event.freesSlot },
    calm, inside, made, rfl, scheduler, toSend⟩

/-- A replay whose producer takes a slot and sends its delivery in one go. -/
structure Steady (capacity : Nat) (deliveries : List Delivery) (play : Play) : Prop where
  reached : Reached capacity deliveries play
  hands : play.scheduler.inHand = 0
  opened : play.scheduler.slots.closed = false

namespace Played

theorem running (played : Played deliveries play history) :
    play.scheduler.executor.hasEnded = false :=
  (played.calm.executor played.run).running

theorem waits_of_idle (played : Played deliveries play history)
    (idle : play.scheduler.executor.isIdle) :
    play.scheduler.executor.mailbox = [] ∧ play.scheduler.executor.pending = [] ∧
      play.scheduler.executor.stash = [] := by
  have running := played.running
  unfold Executor.isIdle at idle
  split at idle
  · rename_i stage
    exact ⟨by simpa using idle, played.run.queued.waiting stage,
      played.run.queued.stash_waiting stage⟩
  · rename_i stage
    simp [Executor.hasEnded, stage] at running
  · cases idle

theorem isSome_of_idle (played : Played deliveries play history)
    (idle : play.scheduler.executor.isIdle) (sent : play.toSend = []) : play.result.isSome := by
  obtain ⟨mailbox, pending, stash⟩ := played.waits_of_idle idle
  obtain ⟨taken, whole⟩ := played.run.taken played.running
  have effects := whole.effects
  rw [pending, stash, List.map_nil, List.filterMap_nil, List.append_nil, List.append_nil]
    at effects
  have all := played.sent
  rw [sent, List.append_nil, whole.sent, mailbox, List.append_nil] at all
  have takes : Effect.perform () ∈ gather Moment.effects history := by
    rw [← effects, all]
    exact List.mem_filterMap.mpr ⟨.perform (), by simp, rfl⟩
  obtain ⟨moment, member, takes⟩ := mem_gather.mp takes
  apply played.comes
  refine ⟨moment, member, ?_⟩
  unfold Moment.effects at takes
  split at takes
  · obtain ⟨e, inside, same⟩ := List.mem_filterMap.mp takes
    rwa [← Event.eq_performStarted same]
  · cases takes

theorem toGo_work (played : Played deliveries play history)
    (busy : play.scheduler.executor.isIdle = false) : play.work.toGo < play.toGo := by
  obtain ⟨m, x, events, slots, calm, inside, made, -, scheduler, toSend⟩ := work_keeps played.idle
  have less := (played.calm.executor played.run).load_lt (step_of_move? made)
    played.run.unfinished calm inside busy
  rw [toGo, toGo, scheduler, toSend]
  exact Nat.add_lt_add_right less _

end Played

namespace Steady

theorem start (capacity : Nat) (deliveries : List Delivery) :
    Steady capacity deliveries (.start capacity deliveries) := ⟨.start, rfl, rfl⟩

theorem move (steady : Steady capacity deliveries play) (party : Party) :
    Steady capacity deliveries (play.move party) := by
  obtain ⟨history, played⟩ := steady.reached.played
  have reached := steady.reached.move party
  cases party with
  | producer =>
    have submitted := submitted_submitNext played.running
    rw [Play.move] at reached ⊢
    generalize play.submitNext = after at submitted reached ⊢
    cases submitted with
    | done | waits => exact steady
    | sends left sent closed => exact ⟨reached, steady.hands, closed.trans steady.opened⟩
    | closes left opened sent => exact ⟨reached, steady.hands, steady.opened⟩
  | executor =>
    obtain ⟨m, x, events, slots, -, -, -, closed, scheduler, -⟩ := work_keeps played.idle
    refine ⟨reached, ?_, ?_⟩
    · rw [Play.move, scheduler]
      exact steady.hands
    · rw [Play.move, scheduler]
      exact closed.trans steady.opened

theorem available_of_idle (steady : Steady capacity deliveries play)
    (idle : play.scheduler.executor.isIdle) : play.scheduler.slots.available = capacity := by
  obtain ⟨history, played⟩ := steady.reached.played
  obtain ⟨mailbox, -, stash⟩ := played.waits_of_idle idle
  have all := steady.reached.reachable.returns.all
  rw [Scheduler.allSlots, steady.hands, Executor.attached, mailbox, stash] at all
  exact all

theorem toGo_next (steady : Steady capacity deliveries play) (positive : 0 < capacity)
    (result : play.result = none) : (play.move play.next).toGo < play.toGo := by
  obtain ⟨history, played⟩ := steady.reached.played
  cases idle : play.scheduler.executor.isIdle with
  | false =>
    simp only [next, idle]
    exact played.toGo_work idle
  | true =>
    have submitted := submitted_submitNext played.running
    simp only [next, idle, if_true, Play.move]
    generalize play.submitNext = after at submitted ⊢
    cases submitted with
    | done left closed =>
      have done := played.isSome_of_idle idle (by simp [toSend, left, closed])
      simp [result] at done
    | waits left full =>
      rw [steady.opened, steady.available_of_idle idle] at full
      simp at full
      omega
    | @sends d rest x slots left sent closed =>
      simp [toGo, toSend, left, load_send? sent]
      omega
    | closes left opened sent =>
      simp [toGo, toSend, left, opened, load_send? sent]
      omega

theorem isSome_toEnd (steady : Steady capacity deliveries play) (positive : 0 < capacity)
    {moves : Nat} (enough : play.toGo ≤ moves) : (toEnd moves play).result.isSome := by
  induction moves generalizing play with
  | zero =>
    cases result : play.result with
    | none =>
      have less := steady.toGo_next positive result
      omega
    | some tally => simp [toEnd, result]
  | succ moves ih =>
    rw [toEnd]
    split
    · assumption
    · rename_i unfinished
      have less := steady.toGo_next positive (by simpa using unfinished)
      exact ih (steady.move _) (by omega)

end Steady

theorem toGo_start_le (capacity : Nat) (deliveries : List Delivery) :
    (start capacity deliveries).toGo ≤ (start capacity deliveries).enough := by
  have grows (n : Nat) :
      ((deliveries.map Delivery.message).map fun m => m.toll + 2).sum + n ≤
        deliveries.foldl (fun n d => n + 8 * d.tokens.length + 32) n := by
    induction deliveries generalizing n with
    | nil => simp
    | cons d rest ih =>
      have rest := ih (n + 8 * d.tokens.length + 32)
      simp [Delivery.message, Message.toll, Batch.toll, Delivery.batch, Batch.ofTokens] at rest ⊢
      omega
  have all := grows 32
  simp [toGo, enough, start, toSend, Scheduler.ofCapacity, load, new, Lanes.toll, Lanes.empty,
    Stage.toll, Message.toll] at all ⊢
  omega

end Play

/-- A report that is of the whole stream: its records and totals are those of a replay that
has come to its end, and the reason why the decoder has detached is the decoder's. -/
structure Reported (decoder : Decoder) (capacity chunkSize : Nat) (input : Bytes)
    (report : Report) : Prop where
  replayed : ∃ play tally passed released,
    Play.Reached capacity (deliveriesOf decoder chunkSize input) play ∧
      Replayed decoder input (chunks chunkSize input) passed released play tally ∧
      report.tokens = tally.records ∧ report.batches = tally.batches ∧ report.bytes = tally.bytes
  pieces : report.chunks = (chunks chunkSize input).length
  reason : report.detached.map Prod.snd =
    (decoder.feed (chunks chunkSize input)).1.parser.violation

theorem run_reported {capacity : Nat} (positive : 0 < capacity) (recovering : Bool)
    (connection : String) (limits : Limits) (chunkSize : Nat) (input : Bytes) :
    Reported (Decoder.start recovering connection limits) capacity chunkSize input
      (run (Decoder.start recovering connection limits) capacity chunkSize input) := by
  have spoken := Decoder.spoken_start recovering connection limits
  have attached := Decoder.hasDetached_start recovering connection limits
  obtain ⟨-, -, -, reason⟩ := Progress.holds_readAll spoken attached 0 (chunks chunkSize input)
  let play := Play.start capacity
    (deliveriesOf (Decoder.start recovering connection limits) chunkSize input)
  have steady : Play.Steady capacity _ play := .start capacity _
  obtain ⟨tally, result⟩ := Option.isSome_iff_exists.mp
    (steady.isSome_toEnd positive (Play.toGo_start_le capacity _))
  have reached := steady.reached.toEnd play.enough
  obtain ⟨history, played⟩ := reached.played
  obtain ⟨passed, released, replayed⟩ := played.comesTo result
  have total : play.total = tally := by rw [Play.total, result]; rfl
  refine ⟨⟨_, tally, passed, released, reached, replayed, ?_⟩, ?_, reason⟩
  · rw [← total]
    exact ⟨rfl, rfl, rfl⟩
  · exact (Progress.chunks_readAll _ _).trans (Nat.zero_add _)

theorem bufferDepth_pos {args : Arguments} {file : ConfigFile} {env : String → Option String}
    {c : Config} (loaded : loadConfig args file env = .ok c) : 0 < c.bufferDepth := by
  unfold loadConfig at loaded
  split at loaded
  · cases loaded
  · rename_i base _
    split at loaded
    · cases loaded
    · rename_i overridden
      cases loaded
      obtain ⟨rfl, sound⟩ := Prod.mk.inj overridden
      exact Config.fault?_eq_none.mp sound .bufferDepth

/-- The command reports the whole stream whenever it has loaded a configuration that a
scheduler can be started with. -/
theorem report_reported {args : Arguments} {file : ConfigFile} {env : String → Option String}
    {c : Config} (loaded : loadConfig args file env = .ok c) (starts : canStart c)
    (connection : String) (input : Bytes) :
    ∃ result, report args c connection input = .ok result ∧
      Reported (Decoder.start args.recovery connection c.limits) c.bufferDepth args.chunkSize
        input result := by
  refine ⟨_, ?_, run_reported (bufferDepth_pos loaded) args.recovery connection c.limits
    args.chunkSize input⟩
  rw [report, if_pos starts]
  rfl

end Replay

end TerminalFeed
