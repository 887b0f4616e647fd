import TerminalFeed.Proofs.Runs

/-!
High before normal. A normal batch is chosen, and left between two tokens, by
what the high lane holds; but the tasks that wait run once more after that, and
what they add to the high lane is not seen before the next boundary. Nothing
else gets between.
-/

namespace TerminalFeed

variable {α κ : Type}

def Stage.precedesToken : Stage α → Bool
  | .tasks (.before ..) | .task (.before ..) => true
  | _ => false

structure HighServed (history : List (Moment α κ)) (x : Executor α κ) : Prop where
  chosen : ∀ batch, x.stage = .batch .normal batch → batch.rest ≠ [] → x.lanes.high = []
  led : ∀ batch, x.stage = .tasks (.before .normal batch) ∨
      x.stage = .task (.before .normal batch) →
    x.lanes.high = addedLately Stage.precedesToken .high history

variable {past history : List (Moment α κ)} {x y : Executor α κ} {m : Move α κ}
  {events : List (Event α κ)}

namespace HighServed

theorem new : HighServed [] (.new : Executor α κ) :=
  ⟨nofun, fun _ stage => by rcases stage with stage | stage <;> cases stage⟩

theorem elsewhere (chosen : ∀ lane batch, y.stage ≠ .batch lane batch)
    (led : y.stage.precedesToken = false) : HighServed past y := by
  refine ⟨fun batch stage => absurd stage (chosen .normal batch), ?_⟩
  rintro batch (stage | stage) <;> rw [stage] at led <;> cases led

theorem kept (served : HighServed past x) (lanes : y.lanes = x.lanes)
    (quiet : Moment.added .high ⟨x, m, events, y⟩ = [])
    (chosen : ∀ batch, y.stage = .batch .normal batch → x.stage = .batch .normal batch)
    (led : ∀ batch, y.stage = .tasks (.before .normal batch) ∨
        y.stage = .task (.before .normal batch) →
      x.stage = .tasks (.before .normal batch) ∨ x.stage = .task (.before .normal batch)) :
    HighServed (⟨x, m, events, y⟩ :: past) y := by
  constructor
  · intro batch stage unfinished
    rw [lanes]
    exact served.chosen batch (chosen batch stage) unfinished
  · intro batch stage
    have before := led batch stage
    have kind : x.stage.precedesToken := by
      rcases before with before | before <;> rw [before] <;> rfl
    rw [lanes, addedLately_cons kind, quiet, List.append_nil]
    exact served.led batch before

theorem grown (served : HighServed past x) {lane : Lane} {batch : Batch α}
    (running : x.stage.runsCode) :
    HighServed (⟨x, .add lane batch, events, (x.enqueue lane batch).1⟩ :: past)
      (x.enqueue lane batch).1 := by
  constructor
  · intro other stage
    rw [Executor.stage_enqueue] at stage
    simp [stage, Stage.runsCode] at running
  · intro other stage
    rw [Executor.stage_enqueue] at stage
    have kind : x.stage.precedesToken := by
      rcases stage with stage | stage <;> rw [stage] <;> rfl
    rw [addedLately_cons kind, ← served.led other stage]
    exact Executor.waiting_enqueue x .high lane batch

theorem step (step : x.Step m events y) (served : HighServed past x) :
    HighServed (⟨x, m, events, y⟩ :: past) y := by
  -- A batch is gone to from a selection or from a boundary, and both have looked
  -- at the high lane. From there on it takes what the tasks add.
  cases step with
  | sent running | queued running inPass | ranAtOnce running inPass =>
    exact served.kept rfl rfl (fun _ => id) (fun _ => id)
  | taskStarted stage tasks | taskReturned stage =>
    refine served.kept rfl rfl (by simp) ?_
    intro batch next
    simpa [stage] using next
  | added running => exact served.grown running
  | @continued around lane batch stage mailbox keeps =>
    refine ⟨?_, fun _ next => by rcases next with next | next <;> cases next⟩
    rintro other ⟨⟩ unfinished
    simpa [Lanes.hasHigh, Batch.isFinished, unfinished] using keeps
  | @selected around handled lane batch lanes stage halted popped =>
    refine ⟨?_, fun _ next => by rcases next with next | next <;> cases next⟩
    rintro other ⟨⟩ unfinished
    exact (Lanes.pop?_eq_some_iff.mp popped).2 rfl
  | @entered around lane batch stage unfinished =>
    refine ⟨by simp, ?_⟩
    intro other next
    obtain ⟨rfl, rfl⟩ : lane = .normal ∧ batch = other := by simpa using next
    have left : x.stage.precedesToken = false := by rw [stage]; rfl
    rw [addedLately_cons_of_not left]
    exact served.chosen batch stage unfinished
  | handedOver stage stash | performReturned stage =>
    apply elsewhere <;> simp only [Executor.stage_handle] <;> split <;> simp [Stage.precedesToken]
  | _ =>
    apply elsewhere <;>
      simp [Executor.startPass, Executor.closePass, Executor.putBack, Executor.stop,
        Executor.stage_handle, Stage.precedesToken, *]

end HighServed

theorem Run.highServed (run : Run history x) : HighServed history x := by
  induction run with
  | new => exact .new
  | move run made ih => exact ih.step (Executor.step_of_move? made)

def Event.takesNormal : Event α κ → Bool
  | .tokenStarted .normal _ | .tokenDropped .normal _ => true
  | _ => false

/-- Whenever a token of the normal lane starts, or is dropped, the high lane
holds what the tasks that ran right before that token have added to it, and
nothing else. -/
theorem Run.high_at_normal_token (run : Run history x) (made : x.move? m = some (y, events))
    (takes : ∃ e ∈ events, e.takesNormal) :
    x.lanes.high = addedLately Stage.precedesToken .high history := by
  obtain ⟨e, member, normal⟩ := takes
  have token : e.isToken := by
    cases e <;> first | rfl | cases normal
  obtain ⟨lane, batch, token, rest, -, ⟨stage, rfl | rfl⟩ | ⟨_, -, rfl | rfl⟩⟩ :=
    Executor.token_event (Executor.step_of_move? made) member token
  all_goals cases lane
  all_goals first | exact run.highServed.led batch (.inl stage) | cases normal

/-- A token of a normal batch leaves a task behind, which adds a high batch
right before the next token. -/
def lateTask : List (Move Nat Nat) :=
  .send (.deliver (.ofTokens [1, 2] 2) .normal false) :: .replicate 6 (.tick .calm) ++
    [.send (.task 0), .finish] ++ .replicate 5 (.tick .calm) ++
    [.add .high (.ofTokens [3] 1), .finish]

theorem high_at_second_token :
    let run := Executor.new.play [] lateTask
    run.2.lanes.high.map Batch.rest = [[3]] ∧
      run.2.lanes.high = addedLately Stage.precedesToken .high run.1 :=
  ⟨rfl, Run.high_at_normal_token (Executor.run_play .new lateTask) (m := .tick .calm) rfl
    ⟨.tokenStarted .normal 2, List.mem_singleton_self _, rfl⟩⟩

/-- A token of the normal lane can come ahead of a high batch. -/
theorem not_high_empty_at_normal_token :
    ¬∀ (history : List (Moment Nat Nat)) (x y : Executor Nat Nat) (m : Move Nat Nat)
      (events : List (Event Nat Nat)), Run history x → x.move? m = some (y, events) →
      (∃ e ∈ events, e.takesNormal) → x.lanes.high = [] := by
  intro claim
  have none := claim _ _ _ (.tick .calm) _ (Executor.run_play .new lateTask) rfl
    ⟨.tokenStarted .normal 2, List.mem_singleton_self _, rfl⟩
  exact List.cons_ne_nil _ _ none

end TerminalFeed
