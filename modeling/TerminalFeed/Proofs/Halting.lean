import TerminalFeed.Proofs.Barrier

/-!
Nothing runs while an executor is halted. Right before a token starts or is dropped it
is seen that no pause is outstanding, that the executor has not been shut down, and that
no token has been rolled back in the pass; whoever may change that has run before.
-/

namespace TerminalFeed

variable {α κ : Type}

def Event.takes : Event α κ → Bool
  | .tokenStarted .. | .tokenDropped .. => true
  | _ => false

theorem Event.isToken_of_takes (e : Event α κ) (takes : e.takes) : e.isToken := by
  cases e <;> simp_all [Event.takes, Event.isToken]

def Moment.handled (moment : Moment α κ) : List (Message α κ) :=
  match moment.move, moment.before.stage with
  | .tick _, .waiting => moment.before.mailbox.take 1
  | .tick _, .mail _ =>
    (moment.before.mailbox.take 1).filter fun m => !moment.before.barred || m.overtakes
  | .tick _, .releasing => moment.before.stash.take 1
  | _, _ => []

namespace Executor

variable {x y : Executor α κ} {m : Move α κ} {events : List (Event α κ)}

theorem shutdown_handle (x : Executor α κ) (n : Message α κ) :
    (x.handle n).1.shutdown = true ↔ x.shutdown = true ∨ .shutdown = n := by
  cases n with
  | deliver batch lane slot =>
    cases nothing : batch.isNothing <;> simp [handle, enqueue_eq, nothing]
  | _ => simp [handle]

theorem handled_absorbed {around : Surroundings} {next : AfterMail α} {n : Message α κ}
    {rest : List (Message α κ)} (stage : x.stage = .mail next) (mailbox : x.mailbox = n :: rest)
    (passes : x.barred → n.overtakes) : Moment.handled ⟨x, .tick around, events, y⟩ = [n] := by
  have taken : (!x.barred || n.overtakes) = true := by
    cases barred : x.barred with
    | false => rfl
    | true => exact passes barred
  simp [Moment.handled, stage, mailbox, taken]

theorem shutdown_step (step : Step x m events y) :
    y.shutdown = true ↔
      x.shutdown = true ∨ .shutdown ∈ Moment.handled ⟨x, m, events, y⟩ := by
  cases step with
  | woken stage mailbox => simp [shutdown_handle, Moment.handled, stage, mailbox]
  | handedOver stage stash => simp [shutdown_handle, Moment.handled, stage, stash]
  | absorbed stage mailbox passes =>
    rw [shutdown_handle, handled_absorbed stage mailbox passes, List.mem_singleton]
  | stashed stage mailbox barred behind =>
    simp [Moment.handled, stage, mailbox, barred, behind]
  | added running =>
    rw [enqueue_eq]
    split <;> simp [Moment.handled]
  | shutDown shutdown stage => simp [stop, shutdown]
  | _ => simp [Moment.handled, startPass, closePass, putBack, stop, *]

theorem rollsBack_handle (x : Executor α κ) (n : Message α κ) :
    (x.handle n).2.any Event.rollsBack = false :=
  any_handle (fun _ _ => rfl) rfl (fun _ => rfl) x n

theorem rolledBack_step (step : Step x m events y) (goesOn : events.any Event.startsPass = false)
    (stops : x.stopRequested ∨ events.any Event.rollsBack) : y.stopRequested := by
  cases step with
  | passStarted stage mailbox opens => cases goesOn
  | tokenRolledBack stage current => rfl
  | woken stage mailbox | absorbed stage mailbox passes | handedOver stage stash =>
    rw [stopRequested_handle]
    simpa [rollsBack_handle] using stops
  | @added lane batch running =>
    rw [← handle_eq_enqueue, rollsBack_handle] at stops
    rw [← handle_eq_enqueue, stopRequested_handle]
    simpa using stops
  | @passHalted around handled stage halted | @passDone around handled stage halted empty =>
    cases handled <;> simpa [closePass, Event.rollsBack] using stops
  | shutDown shutdown stage | failed running => simpa [stop, Event.rollsBack] using stops
  | _ => simpa [Event.rollsBack, putBack] using stops

theorem token_step (step : Step x m events y) (about : events.any Event.isToken) :
    ∃ lane batch token,
      (∃ around, m = .tick around ∧ x.halted around = false ∧
          (events = [.tokenStarted lane token] ∨
            events = [.tokenDropped lane token] ∧ y.stage = .tasks (.after lane batch))) ∨
        events = [.tokenExecuted lane token] ∧ y.stage = .tasks (.after lane batch) ∨
        events = [.tokenRolledBack lane token] ∧ y.stage = .selecting true ∧ y.stopRequested := by
  have outside (z : Executor α κ) (n : Message α κ) : (z.handle n).2.any Event.isToken = false :=
    any_handle (fun _ _ => rfl) rfl (fun _ => rfl) z n
  cases step with
  | @tokenStarted around lane batch token rest stage tasks halted current discards =>
    exact ⟨lane, batch, token, .inl ⟨around, rfl, halted, .inl rfl⟩⟩
  | @tokenDropped around lane batch token rest stage tasks halted current discards =>
    exact ⟨lane, batch.advance, token, .inl ⟨around, rfl, halted, .inr ⟨rfl, rfl⟩⟩⟩
  | @tokenExecuted lane batch token rest stage current =>
    exact ⟨lane, batch.advance, token, .inr (.inl ⟨rfl, rfl⟩)⟩
  | @tokenRolledBack lane batch token rest stage current =>
    exact ⟨lane, batch, token, .inr (.inr ⟨rfl, rfl, rfl⟩)⟩
  | woken stage mailbox | absorbed stage mailbox passes | handedOver stage stash =>
    rw [outside] at about
    cases about
  | @added lane batch running =>
    rw [← handle_eq_enqueue, outside] at about
    cases about
  | @passHalted around handled stage halted | @passDone around handled stage halted empty =>
    cases handled <;> cases about
  | shutDown shutdown stage | failed running => simp [stop, Event.isToken] at about
  | _ => cases about

theorem takes_step (step : Step x m events y) (takes : events.any Event.takes) :
    ∃ around, m = .tick around ∧ x.halted around = false := by
  have about : events.any Event.isToken := by
    obtain ⟨e, member, begins⟩ := List.any_eq_true.mp takes
    exact List.any_eq_true.mpr ⟨e, member, e.isToken_of_takes begins⟩
  obtain ⟨lane, batch, token, ⟨around, rfl, halted, -⟩ | ⟨rfl, -⟩ | ⟨rfl, -⟩⟩ :=
    token_step step about
  · exact ⟨around, rfl, halted⟩
  · cases takes
  · cases takes

end Executor

namespace Run

open Executor

variable {history : List (Moment α κ)} {x : Executor α κ}

theorem shutdown_iff (run : Run history x) :
    x.shutdown ↔ .shutdown ∈ gather Moment.handled history := by
  induction run with
  | new => simp [gather, Executor.new]
  | move run made ih => rw [shutdown_step (step_of_move? made), ih, gather, List.mem_append]

/-- A stop is requested where a token has been rolled back in the pass, and nowhere else. -/
theorem stopRequested_iff (run : Run history x) :
    x.stopRequested ↔ (lastPass history).any Event.rollsBack := by
  constructor
  · exact run.rollsBack
  · intro rolled
    -- The start of a pass forgets the stop, and the rollbacks of the pass before with it.
    induction run with
    | new => cases rolled
    | @move past x y m events run made ih =>
      cases goesOn : events.any Event.startsPass with
      | true => simp [lastPass, goesOn, gather] at rolled
      | false =>
        apply rolledBack_step (step_of_move? made) goesOn
        rw [any_lastPass_cons goesOn, Bool.or_eq_true] at rolled
        exact rolled.imp_left ih

end Run

namespace Station

variable {history : List (Moment α κ)} {s : Station α κ}

structure GoesOn (history : List (Moment α κ)) (s : Station α κ) : Prop where
  own : s.board.count (.only s.member) = 0
  all : s.board.count .all = 0
  runs : .shutdown ∉ gather Moment.handled history
  kept : (lastPass history).any Event.rollsBack = false

/-- Whenever a token starts or is dropped, nothing has halted the executor; and no perform
starts behind a shutdown. -/
theorem Run.goesOn (run : Run history s) {y : Executor α κ} {m : Move α κ}
    {events : List (Event α κ)} (made : s.executor.move? m = some (y, events))
    (sees : m.sees s.isPaused) :
    (events.any Event.takes → s.GoesOn history) ∧
      ∀ code, .performStarted code ∈ events → .shutdown ∉ gather Moment.handled history := by
  have step := Executor.step_of_move? made
  constructor
  · intro takes
    obtain ⟨around, rfl, halted⟩ := Executor.takes_step step takes
    have paused : s.isPaused = around.paused := (beq_iff_eq.mp sees).symm
    obtain ⟨⟨runs, kept⟩, free⟩ :
        (s.executor.shutdown = false ∧ s.executor.stopRequested = false) ∧
          around.paused = false := by
      simpa [Executor.halted] using halted
    have unpaused : ¬(0 < s.board.count (.only s.member) ∨ 0 < s.board.count .all) := by
      rw [← PauseBoard.isPaused_iff, ← isPaused, paused, free]
      exact Bool.false_ne_true
    constructor
    · exact Nat.eq_zero_of_not_pos fun own => unpaused (.inl own)
    · exact Nat.eq_zero_of_not_pos fun all => unpaused (.inr all)
    · rw [← run.executor.shutdown_iff, runs]
      exact Bool.false_ne_true
    · rw [← Bool.not_eq_true, ← run.executor.stopRequested_iff, kept]
      exact Bool.false_ne_true
  · intro code starts handled
    obtain ⟨-, runs, -⟩ := Executor.performStarted_event step starts
    rw [run.executor.shutdown_iff.mpr handled] at runs
    cases runs

def untilPaused : List (Move Nat Nat) :=
  .send (.deliver (.ofTokens [1, 2] 2) .normal false) :: .replicate 6 (.tick .calm)

def whilePaused : List (Move Nat Nat) :=
  .finish :: .replicate 7 (.tick { Surroundings.calm with paused := true })

def onceWoken : List (Move Nat Nat) :=
  .send .wake :: .replicate 5 (.tick .calm)

theorem run_released :
    Run (Executor.new.play [] (untilPaused ++ whilePaused ++ onceWoken)).1
      ⟨(Executor.new.play [] (untilPaused ++ whilePaused ++ onceWoken)).2,
        PauseBoard.empty.register, 0, true, 0⟩ := by
  have running := Run.play (.new .empty) untilPaused rfl rfl
  have paused := Run.play (running.take (.only 0)) whilePaused rfl rfl
  have released : (PauseBoard.empty.register.take (.only 0)).release? (.only 0) =
      some (PauseBoard.empty.register, [0]) := rfl
  have woken := Run.wake (paused.release released) rfl rfl
  exact Run.play woken (.replicate 5 (.tick .calm)) rfl rfl

/-- The second token waits for the release, and starts in the pass that the wake opens. -/
theorem goesOn_released :
    let history := (Executor.new.play [] (untilPaused ++ whilePaused ++ onceWoken)).1
    let s : Station Nat Nat :=
      ⟨(Executor.new.play [] (untilPaused ++ whilePaused ++ onceWoken)).2,
        PauseBoard.empty.register, 0, true, 0⟩
    (s.executor.move? (.tick .calm)).map Prod.snd = some [.tokenStarted .normal 2] ∧
      s.GoesOn history :=
  ⟨rfl, (Run.goesOn run_released (m := .tick .calm) rfl rfl).1 rfl⟩

end Station

end TerminalFeed
