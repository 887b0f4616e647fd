import TerminalFeed.Proofs.Pauses

/-!
What is left when an executor waits. A drain pass leaves batches behind where
it is halted, and then something is bound to wake the executor again. The tasks
that run when a pass is over may add batches too, and nothing does that for
those.
-/

namespace TerminalFeed

variable {α κ : Type}

def Stage.afterPass : Stage α → Bool
  | .tasks .closing | .task .closing | .performs | .waiting => true
  | _ => false

namespace Event

def startsPass : Event α κ → Bool
  | .passStarted => true
  | _ => false

def holdsPass : Event α κ → Bool
  | .passHeld => true
  | _ => false

def rollsBack : Event α κ → Bool
  | .tokenRolledBack .. => true
  | _ => false

end Event

def lastPass (history : List (Moment α κ)) : List (Event α κ) :=
  gather Moment.events (history.takeWhile fun moment => !moment.events.any Event.startsPass)

theorem any_lastPass_cons {moment : Moment α κ}
    (goesOn : moment.events.any Event.startsPass = false) (past : List (Moment α κ))
    (p : Event α κ → Bool) :
    (lastPass (moment :: past)).any p = ((lastPass past).any p || moment.events.any p) := by
  simp [lastPass, goesOn, gather, List.any_append]

namespace Executor

variable {x y : Executor α κ} {m : Move α κ} {events : List (Event α κ)}

theorem any_handle {p : Event α κ → Bool} (entry : ∀ lane batch, p (.enqueued lane batch) = false)
    (freed : p .slotFreed = false) (drop : ∀ lanes, p (.discarded lanes) = false)
    (x : Executor α κ) (n : Message α κ) : (x.handle n).2.any p = false := by
  apply List.any_eq_false.mpr
  intro e member
  rcases event_handle member with ⟨lane, batch, rfl⟩ | rfl | rfl
  · simp [entry]
  · simp [freed]
  · simp [drop]

theorem startsPass_handle (x : Executor α κ) (n : Message α κ) :
    (x.handle n).2.any Event.startsPass = false :=
  any_handle (fun _ _ => rfl) rfl (fun _ => rfl) x n

theorem startsPass_enqueue (x : Executor α κ) (lane : Lane) (batch : Batch α) :
    (x.enqueue lane batch).2.any Event.startsPass = false := by
  rw [← handle_eq_enqueue]
  exact startsPass_handle x _

theorem startsPass_stop (x : Executor α κ) : x.stop.2.any Event.startsPass = false := by
  simp [stop, Event.startsPass]

theorem stop_step (step : Step x m events y) (stop : y.stopRequested) :
    events.any Event.startsPass = false ∧ (x.stopRequested ∨ events.any Event.rollsBack) := by
  cases step with
  | passStarted stage mailbox opens => cases stop
  | tokenRolledBack stage current => exact ⟨rfl, .inr rfl⟩
  | woken stage mailbox | absorbed stage mailbox passes | handedOver stage stash =>
    rw [stopRequested_handle] at stop
    exact ⟨startsPass_handle _ _, .inl stop⟩
  | @added lane batch running =>
    refine ⟨startsPass_enqueue x lane batch, .inl ?_⟩
    rw [enqueue_eq] at stop
    split at stop <;> exact stop
  | shutDown shutdown stage | failed running => exact ⟨startsPass_stop x, .inl stop⟩
  | @passHalted around handled stage halted | @passDone around handled stage halted empty =>
    exact ⟨by cases handled <;> rfl, .inl stop⟩
  | _ => exact ⟨rfl, .inl stop⟩

theorem rests_step (step : Step x m events y) (before : x.stage.afterPass)
    (after : y.stage.afterPass) :
    events.any Event.startsPass = false ∧ y.shutdown = x.shutdown ∧
      (∀ n ∈ x.mailbox, n ∈ y.mailbox) ∧
      ∀ lane, y.lanes.waiting lane =
        x.lanes.waiting lane ++ Moment.added lane ⟨x, m, events, y⟩ := by
  cases step with
  | sent running =>
    refine ⟨rfl, rfl, fun n member => List.mem_append_left _ member, ?_⟩
    simp [Moment.added]
  | @added lane batch running =>
    refine ⟨startsPass_enqueue x lane batch, ?_, ?_, ?_⟩
    · rw [enqueue_eq]
      split <;> rfl
    · rw [enqueue_eq]
      split <;> exact fun n member => member
    · intro other
      exact waiting_enqueue x other lane batch
  | idle stage mailbox | taskStarted stage tasks | passLeft stage tasks
  | rested stage pending shutdown | taskReturned stage | queued running inPass
  | ranAtOnce running inPass =>
    exact ⟨rfl, rfl, fun n member => member, by simp [Moment.added]⟩
  | woken stage mailbox | performStarted stage pending shutdown | shutDown shutdown stage
  | failed running =>
    simp [stage_handle, stop, Stage.afterPass] at after
  | handedOver stage stash => simp [stage, Stage.afterPass] at before
  | _ => simp [Stage.afterPass, *] at before

theorem closes_step (step : Step x m events y) (before : x.stage.afterPass = false)
    (after : y.stage.afterPass) (running : y.shutdown = false) :
    events.any Event.startsPass = false ∧
      (events.any Event.holdsPass ∨ (∃ around, m = .tick around ∧ around.paused) ∨
        x.stopRequested ∨ ∀ lane, y.lanes.waiting lane = []) := by
  -- Three steps close a pass; all others stay outside, or were behind it before.
  cases step with
  | held stage tasks holding => exact ⟨rfl, .inl rfl⟩
  | @passHalted around handled stage halted =>
    refine ⟨by cases handled <;> rfl, .inr ?_⟩
    have goesOn : x.shutdown = false := running
    have stops : x.stopRequested ∨ around.paused := by
      simpa [Executor.halted, goesOn] using halted
    rcases stops with asked | paused
    · exact .inr (.inl asked)
    · exact .inl ⟨around, rfl, paused⟩
  | @passDone around handled stage halted empty =>
    refine ⟨by cases handled <;> rfl, .inr (.inr (.inr ?_))⟩
    have none : x.lanes.high = [] ∧ x.lanes.normal = [] := by
      simpa [Lanes.isEmpty] using empty
    intro lane
    cases lane
    · exact none.1
    · exact none.2
  | sent running' | queued running' inPass | ranAtOnce running' inPass =>
    simp [before] at after
  | added running' => simp [stage_enqueue, before] at after
  | handedOver stage stash | performReturned stage =>
    revert after
    simp only [stage_handle]
    split <;> simp [Stage.afterPass]
  | @taskReturned next stage | @taskStarted around next code rest stage tasks =>
    have same : (Stage.tasks next).afterPass = (Stage.task next).afterPass := by
      cases next <;> rfl
    simp [stage, same] at before after
    simp [before] at after
  | idle stage mailbox | inert stage => rw [before] at after; cases after
  | passLeft stage tasks | rested stage pending shutdown =>
    rw [stage] at before
    cases before
  | _ =>
    simp [stage_handle, startPass, putBack, stop, Stage.afterPass, *] at after

end Executor

theorem Run.rollsBack {history : List (Moment α κ)} {x : Executor α κ} (run : Run history x)
    (stop : x.stopRequested) : (lastPass history).any Event.rollsBack := by
  induction run with
  | new => cases stop
  | move run made ih =>
    obtain ⟨goesOn, before | now⟩ := Executor.stop_step (Executor.step_of_move? made) stop
    · rw [any_lastPass_cons goesOn, ih before, Bool.true_or]
    · rw [any_lastPass_cons goesOn]
      exact Bool.or_eq_true_iff.mpr (.inr now)

namespace Station

variable {history : List (Moment α κ)} {s : Station α κ}

/-- Whether batches have a reason to stay: a pause that is outstanding, or is
being released and is yet to wake the executor, or the way in which the last
pass ended. -/
def HeldBack (history : List (Moment α κ)) (s : Station α κ) : Prop :=
  s.isPaused ∨ 0 < s.waking ∨ (lastPass history).any Event.holdsPass ∨
    (lastPass history).any Event.rollsBack

def Settled (history : List (Moment α κ)) (s : Station α κ) : Prop :=
  s.executor.stage.afterPass → s.executor.shutdown = false →
    s.HeldBack history ∨ .wake ∈ s.executor.mailbox ∨
      ∀ lane, s.executor.lanes.waiting lane = addedLately Stage.afterPass lane history

theorem HeldBack.later {moment : Moment α κ} (held : s.HeldBack history)
    (goesOn : moment.events.any Event.startsPass = false) (y : Executor α κ) :
    HeldBack (moment :: history) { s with executor := y } := by
  rcases held with paused | waking | holds | rolls
  · exact .inl paused
  · exact .inr (.inl waking)
  · refine .inr (.inr (.inl ?_))
    rw [any_lastPass_cons goesOn, holds, Bool.true_or]
  · refine .inr (.inr (.inr ?_))
    rw [any_lastPass_cons goesOn, rolls, Bool.true_or]

theorem settled_move {y : Executor α κ} {m : Move α κ} {events : List (Event α κ)}
    (run : Run history s) (settled : s.Settled history)
    (made : s.executor.move? m = some (y, events))
    (sees : m.sees s.isPaused) :
    Settled (⟨s.executor, m, events, y⟩ :: history) { s with executor := y } := by
  intro after running
  have step := Executor.step_of_move? made
  -- Either the pass was over before, or this is the step that closes it.
  cases before : s.executor.stage.afterPass with
  | true =>
    obtain ⟨goesOn, shutdown, stays, grows⟩ := Executor.rests_step step before after
    rw [shutdown] at running
    rcases settled before running with held | woken | same
    · exact .inl (held.later goesOn y)
    · exact .inr (.inl (stays _ woken))
    · refine .inr (.inr ?_)
      intro lane
      rw [grows, same, addedLately_cons before]
  | false =>
    obtain ⟨goesOn, holds | ⟨around, rfl, paused⟩ | stop | empty⟩ :=
      Executor.closes_step step before after running
    · refine .inl (.inr (.inr (.inl ?_)))
      rw [any_lastPass_cons goesOn]
      exact Bool.or_eq_true_iff.mpr (.inr holds)
    · refine .inl (.inl ?_)
      rw [← paused]
      exact (beq_iff_eq.mp sees).symm
    · refine .inl (.inr (.inr (.inr ?_)))
      rw [any_lastPass_cons goesOn, run.executor.rollsBack stop, Bool.true_or]
    · refine .inr (.inr ?_)
      intro lane
      rw [empty, addedLately_cons_of_not before]

theorem Run.settled (run : Run history s) : s.Settled history := by
  induction run with
  | new board =>
    intro _ _
    exact .inr (.inr fun lane => by cases lane <;> rfl)
  | move run made sees running ih => exact settled_move run ih made sees
  | ended run made running gone ih =>
    intro after
    rw [(Executor.hasEnded_iff _).mp gone] at after
    cases after
  | take run scope ih =>
    intro after running
    exact (ih after running).imp_left fun held => held.imp_left fun paused =>
      PauseBoard.isPaused_take paused scope
  | @release past s scope board woken run released ih =>
    intro after running
    have live : s.executor.hasEnded = false := by
      cases ended : s.executor.hasEnded with
      | false => rfl
      | true =>
        rw [(Executor.hasEnded_iff _).mp ended] at after
        cases after
    obtain ⟨owned, listed⟩ := run.owned live
    have still : board.isLive s.member := by
      rw [PauseBoard.isLive_iff, PauseBoard.owners_release released]
      exact .inl (Nat.zero_lt_of_lt owned)
    -- Only the end of a pause takes a reason away, and it brings a wake instead.
    rcases ih after running with (paused | waking | last) | rest
    · rcases PauseBoard.isPaused_release released paused still listed with still | mine
      · exact .inl (.inl still)
      · exact .inl (.inr (.inl (by simp [mine])))
    · exact .inl (.inr (.inl (Nat.add_pos_left waking _)))
    · exact .inl (.inr (.inr last))
    · exact .inr rest
  | @wake past s y n run due sent ih =>
    intro after running
    refine .inr (.inl ?_)
    obtain ⟨-, rfl⟩ : s.executor.hasEnded = false ∧ _ = y := by
      simpa [Executor.send?] using sent
    exact List.mem_append_right _ (List.mem_singleton_self _)
  | wakeLost run due gone ih =>
    intro after
    rw [(Executor.hasEnded_iff _).mp gone] at after
    cases after
  | register run ih =>
    intro after running
    exact (ih after running).imp_left fun held => held.imp_left PauseBoard.isPaused_register
  | @disown past s other run distinct ih =>
    intro after running
    exact (ih after running).imp_left fun held => held.imp_left fun paused =>
      PauseBoard.isPaused_disown paused other
  | @dropHandle past s run held ih =>
    intro after running
    exact (ih after running).imp_left fun held => held.imp_left fun paused =>
      PauseBoard.isPaused_disown paused s.member

/-- An executor that waits with an empty mailbox has nothing in its lanes but
what the tasks have added that ran when its last pass was over, unless batches
have a reason to stay. -/
theorem Run.waits (run : Run history s) (stage : s.executor.stage = .waiting)
    (mailbox : s.executor.mailbox = []) (running : s.executor.shutdown = false) :
    s.HeldBack history ∨
      ∀ lane, s.executor.lanes.waiting lane = addedLately Stage.afterPass lane history := by
  rcases run.settled (by rw [stage]; rfl) running with held | woken | same
  · exact .inl held
  · rw [mailbox] at woken
    cases woken
  · exact .inr same

/-- The last token of the only batch leaves a task behind, which adds a batch
when the pass is over. -/
def lateBatch : List (Move Nat Nat) :=
  .send (.deliver (.ofTokens [1] 1) .normal false) :: .replicate 6 (.tick .calm) ++
    [.send (.task 0), .finish] ++ .replicate 6 (.tick .calm) ++
    [.add .normal (.ofTokens [2] 1), .finish] ++ .replicate 2 (.tick .calm)

theorem run_lateBatch :
    Run (Executor.new.play [] lateBatch).1
      ⟨(Executor.new.play [] lateBatch).2, PauseBoard.empty.register, 0, true, 0⟩ :=
  Run.play (.new .empty) lateBatch rfl rfl

theorem waits_lateBatch :
    let s : Station Nat Nat :=
      ⟨(Executor.new.play [] lateBatch).2, PauseBoard.empty.register, 0, true, 0⟩
    s.isPaused = false ∧ s.executor.lanes.normal.map Batch.rest = [[2]] ∧
      (s.HeldBack (Executor.new.play [] lateBatch).1 ∨
        ∀ lane, s.executor.lanes.waiting lane =
          addedLately Stage.afterPass lane (Executor.new.play [] lateBatch).1) :=
  ⟨rfl, rfl, Run.waits run_lateBatch rfl rfl rfl⟩

/-- Work can be left behind with no reason to stay. -/
theorem not_emptied_or_heldBack :
    ¬∀ (history : List (Moment Nat Nat)) (s : Station Nat Nat), Run history s →
      s.executor.stage = .waiting → s.executor.mailbox = [] → s.executor.shutdown = false →
      s.executor.lanes.isEmpty ∨ s.HeldBack history := by
  intro claim
  rcases claim _ _ run_lateBatch rfl rfl rfl with empty | paused | waking | holds | rolls
  · exact Bool.noConfusion empty
  · exact Bool.noConfusion paused
  · exact Nat.lt_irrefl 0 waking
  · exact Bool.noConfusion holds
  · exact Bool.noConfusion rolls

end Station

end TerminalFeed
