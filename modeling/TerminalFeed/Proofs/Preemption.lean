import TerminalFeed.Proofs.Halting
import TerminalFeed.Proofs.Priority

/-!
High deliveries preempt. A token that finishes sends the executor to its mail, whatever
comes in between, and nothing of the normal lane is begun before the mail has been read
and all that it brought for the high lane has been consumed, or dropped.
-/

namespace TerminalFeed

variable {α κ : Type}

def Event.finishes : Event α κ → Bool
  | .tokenExecuted .. | .tokenDropped .. | .tokenRolledBack .. => true
  | _ => false

theorem Event.isToken_of_finishes (e : Event α κ) (finishes : e.finishes) : e.isToken := by
  cases e <;> simp_all [Event.finishes, Event.isToken]

def AfterTasks.leadsToMail : AfterTasks α → Bool
  | .after .. | .closing => true
  | _ => false

def Stage.leadsToMail (stopRequested : Bool) : Stage α → Bool
  | .tasks next | .task next => next.leadsToMail
  | .selecting _ => stopRequested
  | .batch .. | .token .. => false
  | _ => true

def Executor.turnsToMail (x : Executor α κ) : Bool := x.stage.leadsToMail x.stopRequested

/-! The books name the batches that have entered, each with its tokens. -/

namespace Ledger

theorem tokens_strike (deposits : List (Deposit α)) (line : List (Batch α)) :
    (strike deposits line).map Deposit.tokens = deposits.map Deposit.tokens := by
  induction deposits, line using strike.induct with
  | case1 line => rfl
  | case2 deposits present => cases deposits <;> rfl
  | case3 d older b line dropped ih => simp [strike, dropped, ih]
  | case4 d older b line standing ih => simp [strike, standing, ih]

theorem tokens_record (lane : Lane) (l : Ledger α) (e : Event α κ) :
    (record lane l e).deposits.reverse.map Deposit.tokens =
      l.deposits.reverse.map Deposit.tokens ++ (e.entering lane).map Batch.rest := by
  cases e with
  | enqueued other batch => by_cases same : other = lane <;> simp [record, Event.entering, same]
  | discarded lanes => simp [record, Event.entering, List.map_reverse, tokens_strike]
  | tokenDropped other token | tokenExecuted other token =>
    by_cases same : other = lane <;> simp [record, Event.entering, same]
  | _ => simp [record, Event.entering]

theorem tokens_foldl (lane : Lane) (l : Ledger α) (events : List (Event α κ)) :
    (events.foldl (record lane) l).deposits.reverse.map Deposit.tokens =
      l.deposits.reverse.map Deposit.tokens ++
        (events.flatMap (Event.entering lane)).map Batch.rest := by
  induction events generalizing l with
  | nil => simp
  | cons e rest ih => simp only [List.foldl_cons, ih, tokens_record, List.flatMap_cons,
      List.map_append, List.append_assoc]

end Ledger

theorem ledgerOf_cons (lane : Lane) (moment : Moment α κ) (past : List (Moment α κ)) :
    ledgerOf lane (moment :: past) =
      moment.events.foldl (Ledger.record lane) (ledgerOf lane past) := by
  simp [ledgerOf, Ledger.ofEvents, gather, List.foldl_append]

theorem tokens_ledgerOf (lane : Lane) (history : List (Moment α κ)) :
    (ledgerOf lane history).deposits.reverse.map Deposit.tokens =
      (gather (Moment.entered lane) history).map Batch.rest := by
  induction history with
  | nil => rfl
  | cons moment past ih =>
    rw [ledgerOf_cons, Ledger.tokens_foldl, ih, gather, List.map_append]
    rfl

namespace Executor

variable {x y : Executor α κ} {m : Move α κ} {events : List (Event α κ)}

theorem finishes_step (step : Step x m events y) (finishes : events.any Event.finishes) :
    y.turnsToMail := by
  have about : events.any Event.isToken := by
    obtain ⟨e, member, left⟩ := List.any_eq_true.mp finishes
    exact List.any_eq_true.mpr ⟨e, member, e.isToken_of_finishes left⟩
  unfold turnsToMail
  obtain ⟨lane, batch, token, ⟨around, -, -, rfl | ⟨rfl, stage⟩⟩ | ⟨rfl, stage⟩ |
    ⟨rfl, stage, stops⟩⟩ := token_step step about
  · cases finishes
  · rw [stage]
    rfl
  · rw [stage]
    rfl
  · rw [stage]
    exact stops

/-- The mail is read to its end before the executor turns to anything else. -/
theorem turnsToMail_step (step : Step x m events y) (before : x.turnsToMail) :
    y.turnsToMail ∨ x.mailbox = [] := by
  cases step with
  | passStarted stage mailbox opens | yielded stage mailbox high unfinished
  | continued stage mailbox keeps => exact .inr mailbox
  | selected stage halted popped =>
    have stops : x.stopRequested := by simpa [turnsToMail, stage, Stage.leadsToMail] using before
    simp [Executor.halted, stops] at halted
  | woken stage mailbox | absorbed stage mailbox passes =>
    left
    simp [turnsToMail, stage, Stage.leadsToMail]
  | @handedOver around n rest stage stash =>
    left
    rw [turnsToMail, stage_handle]
    cases n <;> rfl
  | performReturned stage =>
    left
    rw [turnsToMail]
    cases x.pending <;> rfl
  | added running =>
    left
    rw [← handle_eq_enqueue]
    simpa [turnsToMail] using before
  | _ =>
    left
    simp_all [turnsToMail, Stage.leadsToMail, AfterTasks.leadsToMail, closePass, stop]

theorem discardAll_handled (step : Step x m events y) {dropped : Lanes α}
    (drops : .discarded dropped ∈ events) : .discardAll ∈ Moment.handled ⟨x, m, events, y⟩ := by
  have source {z : Executor α κ} {n : Message α κ} (handled : .discarded dropped ∈ (z.handle n).2) :
      n = .discardAll := by
    cases n with
    | discardAll => rfl
    | deliver batch lane slot =>
      cases nothing : batch.isNothing <;> cases slot <;>
        simp [handle, enqueue_eq, nothing] at handled
    | _ => simp [handle] at handled
  cases step with
  | woken stage mailbox =>
    obtain rfl := source drops
    simp [Moment.handled, stage, mailbox]
  | absorbed stage mailbox passes =>
    obtain rfl := source drops
    rw [handled_absorbed stage mailbox passes, List.mem_singleton]
  | handedOver stage stash =>
    obtain rfl := source drops
    simp [Moment.handled, stage, stash]
  | @added lane batch running =>
    rw [← handle_eq_enqueue] at drops
    cases source drops
  | @passHalted around handled stage halted | @passDone around handled stage halted empty =>
    cases handled <;> simp [closePass] at drops
  | shutDown shutdown stage | failed running => simp [stop] at drops
  | _ => simp [startPass] at drops

theorem ending_step (step : Step x m events y) (running : x.hasEnded = false)
    (gone : y.hasEnded) :
    (y, events) = x.stop ∧ Moment.handled ⟨x, m, events, y⟩ = [] := by
  have last := (hasEnded_iff y).mp gone
  have before : x.stage ≠ .ended := by
    intro stage
    rw [hasEnded, stage] at running
    cases running
  cases step with
  | shutDown shutdown stage =>
    refine ⟨rfl, ?_⟩
    rcases stage with stage | ⟨stage, mailbox⟩
    · simp [Moment.handled, stage]
    · simp [Moment.handled, stage, mailbox]
  | failed running => exact ⟨rfl, rfl⟩
  | added running =>
    rw [stage_enqueue] at last
    exact absurd last before
  | handedOver stage stash | performReturned stage =>
    revert last
    simp only [stage_handle]
    split <;> simp
  | sent running | inert stage | queued running inPass | ranAtOnce running inPass =>
    exact absurd last before
  | _ => simp_all [startPass, closePass, putBack]

theorem handled_of_hasEnded (made : x.move? m = some (y, events)) (gone : y.hasEnded) :
    Moment.handled ⟨x, m, events, y⟩ = [] := by
  cases ended : x.hasEnded with
  | true =>
    have stage := (hasEnded_iff x).mp ended
    cases m <;> simp [Moment.handled, stage]
  | false => exact (ending_step (step_of_move? made) ended gone).2

theorem event_of_hasEnded (made : x.move? m = some (y, events)) (gone : y.hasEnded)
    {e : Event α κ} (member : e ∈ events) : e = .slotFreed ∨ e = .ended := by
  cases ended : x.hasEnded with
  | true =>
    rw [(eq_of_hasEnded ended made).2] at member
    cases member
  | false =>
    obtain ⟨stopped, -⟩ := ending_step (step_of_move? made) ended gone
    have same : events = x.stop.2 := congrArg Prod.snd stopped
    rw [same] at member
    exact event_stop member

theorem leads_step (step : Step x m events y) {lane : Lane} {batch : Batch α}
    (after : y.stage = .tasks (.before lane batch) ∨ y.stage = .task (.before lane batch)) :
    Moment.delivered .high ⟨x, m, events, y⟩ = [] ∧
      ((x.stage = .tasks (.before lane batch) ∨ x.stage = .task (.before lane batch)) ∨
        x.stage = .batch lane batch ∧ batch.rest ≠ []) := by
  cases step with
  | sent running | queued running inPass | ranAtOnce running inPass => exact ⟨rfl, .inl after⟩
  | added running =>
    rw [stage_enqueue] at after
    exact ⟨rfl, .inl after⟩
  | taskStarted stage tasks | taskReturned stage =>
    refine ⟨rfl, .inl ?_⟩
    simpa [stage] using after
  | entered stage unfinished =>
    obtain ⟨rfl, rfl⟩ : _ = lane ∧ _ = batch := by simpa using after
    exact ⟨rfl, .inr ⟨stage, unfinished⟩⟩
  | handedOver stage stash | performReturned stage =>
    revert after
    simp only [stage_handle]
    split <;> simp
  | _ => simp [startPass, closePass, putBack, stop, *] at after

end Executor

theorem gather_append {β : Type} (give : Moment α κ → List β) (later past : List (Moment α κ)) :
    gather give (later ++ past) = gather give past ++ gather give later := by
  induction later with
  | nil => simp [gather]
  | cons moment later ih => rw [List.cons_append, gather, ih, gather, List.append_assoc]

theorem Ledger.foldl_record_ended {events : List (Event α κ)}
    (ends : ∀ e ∈ events, e = .slotFreed ∨ e = .ended) (lane : Lane) (l : Ledger α) :
    events.foldl (record lane) l = l := by
  induction events with
  | nil => rfl
  | cons e rest ih =>
    obtain ⟨first, others⟩ := List.forall_mem_cons.mp ends
    rcases first with rfl | rfl <;> exact ih others

namespace Run

open Executor

variable {later past history : List (Moment α κ)} {x y : Executor α κ} {m : Move α κ}
  {events : List (Event α κ)} {moment : Moment α κ}

theorem earlier (run : Run (later ++ moment :: past) x) (running : x.hasEnded = false) :
    Run (moment :: past) moment.after ∧ moment.after.hasEnded = false := by
  induction later generalizing x with
  | nil =>
    cases run with
    | move run made => exact ⟨run.move made, running⟩
  | cons next later ih =>
    cases run with
    | move run made => exact ih run (running_before made running)

theorem delivered_prefix (run : Run history x) (lane : Lane) :
    gather (Moment.delivered lane) history <+: gather (Moment.sent lane) history := by
  apply leaves_prefix (fun run running => run.arrivals running lane) _ run
  intro x y m events made gone
  have quiet : Moment.entered lane ⟨x, m, events, y⟩ = [] := by
    apply List.flatMap_eq_nil_iff.mpr
    intro e member
    rcases event_of_hasEnded made gone member with rfl | rfl <;> rfl
  unfold Moment.delivered
  split
  · exact quiet
  · rfl

theorem consumed_prefix (run : Run history x) (lane : Lane) :
    (ledgerOf lane history).consumed <+: Ledger.contents (ledgerOf lane history).deposits := by
  induction run with
  | new => exact List.nil_prefix
  | move run made ih =>
    cases gone : Executor.hasEnded _ with
    | false => exact ⟨_, ((run.move made).inOrder gone lane).balance⟩
    | true =>
      rw [ledgerOf_cons, Ledger.foldl_record_ended fun e => event_of_hasEnded made gone]
      exact ih

theorem delivered_append_mailbox (run : Run history x) (running : x.hasEnded = false) :
    gather (Moment.delivered .high) history ++ x.mailbox.flatMap (Message.bound .high) =
      gather (Moment.sent .high) history := by
  have none : x.stash.flatMap (Message.bound .high) = [] := by
    apply List.flatMap_eq_nil_iff.mpr
    intro held member
    exact Message.bound_high_of_not_overtakes (run.queued.behind held member)
  have arrivals := run.arrivals running .high
  rwa [undelivered, List.flatMap_append, none, List.nil_append] at arrivals

/-- From where the executor turns to its mail, it has either not come to the end of it, or
all that had been sent by then has been taken in: whatever of it is not in the mailbox is. -/
theorem reads_of {β : Type} {sent taken : Moment α κ → List β} {unread : Message α κ → List β}
    (account : ∀ {history : List (Moment α κ)} {z : Executor α κ}, Run history z →
      z.hasEnded = false →
        gather taken history ++ z.mailbox.flatMap unread = gather sent history)
    (run : Run (later ++ moment :: past) x) (running : x.hasEnded = false)
    (turns : moment.after.turnsToMail) :
    x.turnsToMail ∨
      gather sent (moment :: past) <+: gather taken (later ++ moment :: past) := by
  -- Where the executor goes on from its mail the mailbox is empty, so all that had been
  -- sent has been taken in by then.
  induction later generalizing x with
  | nil =>
    cases run with
    | move run made => exact .inl turns
  | cons next later ih =>
    cases run with
    | @move _ z x m events run made =>
      have before := running_before made running
      rcases ih run before with still | done
      · rcases turnsToMail_step (step_of_move? made) still with still | mailbox
        · exact .inl still
        · right
          have earlier : gather sent (moment :: past) <+:
              gather sent (later ++ moment :: past) := by
            rw [gather_append]
            exact List.prefix_append _ _
          have read : gather taken (later ++ moment :: past) =
              gather sent (later ++ moment :: past) := by
            simpa [mailbox] using account run before
          rw [← read] at earlier
          exact earlier.trans (List.prefix_append _ _)
      · exact .inr (done.trans (List.prefix_append _ _))

theorem reads (run : Run (later ++ moment :: past) x) (running : x.hasEnded = false)
    (turns : moment.after.turnsToMail) :
    x.turnsToMail ∨ gather (Moment.sent .high) (moment :: past) <+:
      gather (Moment.delivered .high) (later ++ moment :: past) :=
  reads_of delivered_append_mailbox run running turns

/-- Ahead of a token of the normal lane, all that has entered the high lane by way of the
mailbox has been consumed, or dropped. -/
theorem served (run : Run history x) (running : x.hasEnded = false) {batch : Batch α}
    (leads : x.stage = .tasks (.before .normal batch) ∨
      x.stage = .task (.before .normal batch)) :
    ∃ mid, mid <:+ history ∧
      gather (Moment.delivered .high) mid = gather (Moment.delivered .high) history ∧
      (ledgerOf .high mid).consumed = Ledger.contents (ledgerOf .high mid).deposits := by
  -- The tasks ahead of the token may have added to the high lane since. It was empty
  -- where the batch was gone to, and nothing has been delivered in between.
  induction run with
  | new => rcases leads with leads | leads <;> cases leads
  | @move past x y m events run made ih =>
    have before := running_before made running
    obtain ⟨quiet, still | ⟨stage, unfinished⟩⟩ := leads_step (step_of_move? made) leads
    · obtain ⟨mid, suffix, same, done⟩ := ih before still
      refine ⟨mid, suffix.trans (List.suffix_cons _ _), ?_, done⟩
      rw [gather, quiet, List.append_nil, same]
    · refine ⟨past, List.suffix_cons _ _, ?_, ?_⟩
      · rw [gather, quiet, List.append_nil]
      · have balance := (run.inOrder before .high).balance
        have none : x.line .high = [] := by
          rw [line, stage, Lanes.waiting, run.highServed.chosen batch stage unfinished]
          rfl
        rwa [none, List.flatMap_nil, List.append_nil] at balance

end Run

structure Preempts (history : List (Moment α κ)) (x : Executor α κ) : Prop where
  -- Batches are delivered in the order in which they were sent.
  order : gather (Moment.delivered .high) history <+: gather (Moment.sent .high) history
  -- The books name the batches in the order in which they have entered.
  deposits : (ledgerOf .high history).deposits.reverse.map Deposit.tokens =
    (gather (Moment.entered .high) history).map Batch.rest
  -- Nothing enters but what is delivered, and what code adds there and then.
  entries : ∀ moment ∈ history,
    moment.entered .high = moment.delivered .high ++ moment.added .high
  -- Tokens are consumed in the order of the books.
  consumed : (ledgerOf .high history).consumed <+:
    Ledger.contents (ledgerOf .high history).deposits
  -- The books strike off what a message to discard all has dropped, and nothing else.
  drops : ∀ moment ∈ history, ∀ lanes, .discarded lanes ∈ moment.events →
    .discardAll ∈ moment.handled
  -- When a token of the normal lane starts or is dropped, then whenever a token finished
  -- before, all that had been delivered to the high lane and all that was in the mailbox for
  -- it has entered it, and has since been consumed or dropped.
  ahead : ∀ m y events, x.move? m = some (y, events) → (∃ e ∈ events, e.takesNormal) →
    ∀ later moment past, history = later ++ moment :: past →
      moment.events.any Event.finishes →
      ∃ mid, mid <:+ history ∧
        gather (Moment.delivered .high) (moment :: past) ++
            moment.after.mailbox.flatMap (Message.bound .high) <+:
          gather (Moment.delivered .high) mid ∧
        (ledgerOf .high mid).consumed = Ledger.contents (ledgerOf .high mid).deposits

namespace Run

open Executor

variable {history : List (Moment α κ)} {x y : Executor α κ} {m : Move α κ}
  {events : List (Event α κ)}

theorem leads_of_takesNormal (made : x.move? m = some (y, events))
    (takes : ∃ e ∈ events, e.takesNormal) :
    ∃ batch, x.stage = .tasks (.before .normal batch) := by
  obtain ⟨e, member, normal⟩ := takes
  have token : e.isToken := by
    cases e <;> first | rfl | cases normal
  obtain ⟨lane, batch, token, rest, -, ⟨stage, rfl | rfl⟩ | ⟨_, -, rfl | rfl⟩⟩ :=
    token_event (step_of_move? made) member token
  all_goals cases lane
  all_goals first | exact ⟨batch, stage⟩ | cases normal

/-- At every point of every run, deliveries to the high lane preempt the normal one. -/
theorem preempts (run : Run history x) : Preempts history x := by
  constructor
  · exact run.delivered_prefix .high
  · exact tokens_ledgerOf .high history
  · intro moment member
    exact entered_step (run.step member) .high
  · exact run.consumed_prefix .high
  · intro moment member lanes drops
    exact discardAll_handled (run.step member) drops
  · rintro m y events made takes later moment past rfl finishes
    obtain ⟨batch, stage⟩ := leads_of_takesNormal made takes
    have running : x.hasEnded = false := by rw [hasEnded, stage]
    obtain ⟨sofar, alive⟩ := run.earlier running
    have turns : moment.after.turnsToMail :=
      finishes_step (run.step (List.mem_append_right _ (.head _))) finishes
    rcases run.reads running turns with still | read
    · simp [turnsToMail, stage, Stage.leadsToMail, AfterTasks.leadsToMail] at still
    · obtain ⟨mid, suffix, same, done⟩ := run.served running (.inl stage)
      refine ⟨mid, suffix, ?_, done⟩
      rwa [same, sofar.delivered_append_mailbox alive]

/-- A high batch arrives with a perform while a normal token executes. It is rolled back
once, and consumed in the pass behind the perform, ahead of the next normal token. -/
theorem preempts_rolledBack :
    let moves : List (Move Nat Nat) :=
      .send (.deliver (.ofTokens [1, 2] 2) .normal false) :: .replicate 6 (.tick .calm) ++
        [.send (.perform 7), .send (.deliver (.ofTokens [3] 1) .high false), .finish] ++
        .replicate 7 (.tick .calm) ++ [.rollBack, .finish] ++ .replicate 3 (.tick .calm) ++
        .finish :: .replicate 6 (.tick .calm) ++ .finish :: .replicate 5 (.tick .calm)
    let run := Executor.new.play [] moves
    (run.2.move? (.tick .calm)).map Prod.snd = some [.tokenStarted .normal 2] ∧
      (ledgerOf .high run.1).consumed = [3] ∧ Preempts run.1 run.2 :=
  ⟨rfl, rfl, preempts (run_play .new _)⟩

end Run

end TerminalFeed
