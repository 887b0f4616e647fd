import TerminalFeed.Proofs.Runs
import TerminalFeed.Scheduler.Pause

/-!
An executor among pauses. A release that lets a scheduler go on wakes it, for
as long as its executor runs; the wake comes a little after the release.
-/

namespace TerminalFeed

variable {α κ : Type}

namespace PauseBoard

variable {board after : PauseBoard} {scope : PauseScope} {member : Nat} {woken : List Nat}

theorem known_of_count (positive : 0 < board.count scope) :
    ∀ k, scope = .only k → k < board.members.length := by
  rintro k rfl
  apply Decidable.byContradiction
  intro outside
  simp [count, Nat.not_lt.mp outside] at positive

theorem lt_of_owners (owned : 0 < board.owners member) : member < board.members.length := by
  apply Decidable.byContradiction
  intro outside
  simp [owners, Nat.not_lt.mp outside] at owned

theorem isPaused_of_count {other : PauseScope} (holds : other = .only member ∨ other = .all)
    (positive : 0 < board.count other) : board.isPaused member := by
  rw [isPaused_iff]
  rcases holds with rfl | rfl
  · exact .inl positive
  · exact .inr positive

theorem count_of_isPaused (paused : board.isPaused member) :
    ∃ other, (other = .only member ∨ other = .all) ∧ 0 < board.count other := by
  rcases (isPaused_iff board member).mp paused with own | all
  · exact ⟨_, .inl rfl, own⟩
  · exact ⟨_, .inr rfl, all⟩

theorem isPaused_take (paused : board.isPaused member) (scope : PauseScope) :
    (board.take scope).isPaused member := by
  obtain ⟨other, holds, positive⟩ := count_of_isPaused paused
  apply isPaused_of_count holds
  by_cases same : other = scope
  · subst other
    rw [take, count_setCount_self _ _ _ (known_of_count positive)]
    exact Nat.succ_pos _
  · rwa [take, count_setCount_of_ne _ _ same]

theorem isPaused_register (paused : board.isPaused member) : board.register.isPaused member := by
  rwa [isPaused_iff, count_register, count_register, ← isPaused_iff]

theorem isPaused_disown (paused : board.isPaused member) (other : Nat) :
    (board.disown other).isPaused member := by
  rwa [isPaused_iff, count_disown, count_disown, ← isPaused_iff]

section Lift

variable (board) (scope other : PauseScope)

@[simp] theorem count_lift : (board.lift scope).1.count other = board.count other := by
  cases scope <;> cases other <;> rfl

@[simp] theorem owners_lift (member : Nat) :
    (board.lift scope).1.owners member = board.owners member := by
  cases scope <;> rfl

@[simp] theorem length_lift : (board.lift scope).1.members.length = board.members.length := by
  cases scope <;> rfl

theorem roster_lift : (board.lift scope).1.roster.Sublist board.roster := by
  cases scope with
  | all => exact List.filter_sublist
  | only member => exact List.Sublist.refl _

variable {board} in
theorem mem_roster_lift (listed : member ∈ board.roster) (live : board.isLive member) :
    member ∈ (board.lift scope).1.roster := by
  cases scope with
  | all => exact mem_prune.mpr ⟨listed, live⟩
  | only other => exact listed

end Lift

section Release

variable (released : board.release? scope = some (after, woken))
include released

/-- A release lifts the pause if it is the last, and else only takes one from the count. -/
theorem release_cases :
    (board.count scope = 1 ∧ after = ((board.setCount scope 0).lift scope).1 ∧
        woken = ((board.setCount scope 0).lift scope).2) ∨
      (1 < board.count scope ∧ after = board.setCount scope (board.count scope - 1) ∧
        woken = []) := by
  cases count : board.count scope with
  | zero => simp [release?, count] at released
  | succ n =>
    simp only [release?, count, Option.some.injEq] at released
    cases n with
    | zero =>
      obtain ⟨rfl, rfl⟩ := Prod.mk.inj released.symm
      exact .inl ⟨rfl, rfl, rfl⟩
    | succ n =>
      obtain ⟨rfl, rfl⟩ := Prod.mk.inj released.symm
      exact .inr ⟨Nat.succ_lt_succ n.succ_pos, rfl, rfl⟩

theorem count_release (other : PauseScope) :
    after.count other = board.count other - if other = scope then 1 else 0 := by
  have set : after.count other = (board.setCount scope (board.count scope - 1)).count other := by
    rcases release_cases released with ⟨one, rfl, -⟩ | ⟨-, rfl, -⟩
    · rw [count_lift, one]
    · rfl
  have positive : 0 < board.count scope := by
    rcases release_cases released with ⟨one, -⟩ | ⟨more, -⟩
    · omega
    · omega
  rw [set]
  split
  · subst other
    exact count_setCount_self _ _ _ (known_of_count positive)
  · rename_i distinct
    exact count_setCount_of_ne _ _ distinct

theorem owners_release (member : Nat) : after.owners member = board.owners member := by
  rcases release_cases released with ⟨-, rfl, -⟩ | ⟨-, rfl, -⟩ <;> simp

theorem length_release : after.members.length = board.members.length := by
  rcases release_cases released with ⟨-, rfl, -⟩ | ⟨-, rfl, -⟩ <;> simp

theorem roster_release : after.roster.Sublist board.roster := by
  rcases release_cases released with ⟨-, rfl, -⟩ | ⟨-, rfl, -⟩
  · exact (roster_lift _ scope).trans (by simp)
  · simp

theorem mem_roster_release (listed : member ∈ board.roster) (live : after.isLive member) :
    member ∈ after.roster := by
  rcases release_cases released with ⟨-, rfl, -⟩ | ⟨-, rfl, -⟩
  · exact mem_roster_lift scope (by simpa using listed) (by simpa [isLive] using live)
  · simpa using listed

theorem isPaused_release (paused : board.isPaused member) (live : after.isLive member)
    (listed : member ∈ board.roster) : after.isPaused member ∨ member ∈ woken := by
  obtain ⟨other, holds, positive⟩ := count_of_isPaused paused
  have left := count_release released other
  rcases release_cases released with ⟨-, lifted, rfl⟩ | ⟨more, -, -⟩
  · by_cases same : other = scope
    · subst other
      refine .inr ?_
      rcases holds with rfl | rfl
      · exact List.mem_singleton_self member
      · rw [lifted] at live
        exact mem_prune.mpr ⟨by simpa using listed, by simpa [isLive] using live⟩
    · -- A pause by another scope outlasts this release.
      rw [if_neg same] at left
      exact .inl (isPaused_of_count holds (left ▸ positive))
  · refine .inl (isPaused_of_count holds ?_)
    split at left <;> grind

end Release

end PauseBoard

def Move.sees (paused : Bool) : Move α κ → Bool
  | .tick around => around.paused == paused
  | _ => true

/-- An executor, the pauses that may hold it, and those who refer to its count. -/
structure Station (α κ : Type) where
  executor : Executor α κ
  board : PauseBoard
  member : Nat
  hasHandle : Bool
  -- Calls that have released a last token, and have the executor still to wake.
  waking : Nat

namespace Station

def isPaused (s : Station α κ) : Bool := s.board.isPaused s.member

/-- Every run of an executor among pauses. Tokens are taken and released by
anyone at any time, and other schedulers come and go. -/
inductive Run : List (Moment α κ) → Station α κ → Prop
  | new (board : PauseBoard) :
      Run [] ⟨.new, board.register, board.members.length, true, 0⟩
  | move {past : List (Moment α κ)} {s : Station α κ} {y : Executor α κ} {m : Move α κ}
      {events : List (Event α κ)} (run : Run past s)
      (made : s.executor.move? m = some (y, events)) (sees : m.sees s.isPaused)
      (running : y.hasEnded = false) :
      Run (⟨s.executor, m, events, y⟩ :: past) { s with executor := y }
  | ended {past : List (Moment α κ)} {s : Station α κ} {y : Executor α κ} {m : Move α κ}
      {events : List (Event α κ)} (run : Run past s)
      (made : s.executor.move? m = some (y, events))
      (running : s.executor.hasEnded = false) (gone : y.hasEnded) :
      Run (⟨s.executor, m, events, y⟩ :: past)
        { s with executor := y, board := s.board.disown s.member }
  | take {past : List (Moment α κ)} {s : Station α κ} (run : Run past s) (scope : PauseScope) :
      Run past { s with board := s.board.take scope }
  | release {past : List (Moment α κ)} {s : Station α κ} {scope : PauseScope}
      {board : PauseBoard} {woken : List Nat} (run : Run past s)
      (released : s.board.release? scope = some (board, woken)) :
      Run past
        { s with board := board, waking := s.waking + if s.member ∈ woken then 1 else 0 }
  | wake {past : List (Moment α κ)} {s : Station α κ} {y : Executor α κ} {n : Nat}
      (run : Run past s) (due : s.waking = n + 1) (sent : s.executor.send? .wake = some y) :
      Run (⟨s.executor, .send .wake, [], y⟩ :: past) { s with executor := y, waking := n }
  | wakeLost {past : List (Moment α κ)} {s : Station α κ} {n : Nat} (run : Run past s)
      (due : s.waking = n + 1) (gone : s.executor.hasEnded) : Run past { s with waking := n }
  | register {past : List (Moment α κ)} {s : Station α κ} (run : Run past s) :
      Run past { s with board := s.board.register }
  | disown {past : List (Moment α κ)} {s : Station α κ} {other : Nat} (run : Run past s)
      (distinct : other ≠ s.member) : Run past { s with board := s.board.disown other }
  | dropHandle {past : List (Moment α κ)} {s : Station α κ} (run : Run past s)
      (held : s.hasHandle) :
      Run past { s with board := s.board.disown s.member, hasHandle := false }

theorem Run.executor {history : List (Moment α κ)} {s : Station α κ} (run : Run history s) :
    TerminalFeed.Run history s.executor := by
  induction run with
  | new board => exact .new
  | move run made sees running ih => exact .move ih made
  | ended run made running gone ih => exact .move ih made
  | wake run due sent ih =>
    refine .move ih ?_
    rw [Executor.move?, sent]
    rfl
  | take run scope ih | release run released ih | wakeLost run due gone ih | register run ih
  | disown run distinct ih | dropHandle run held ih => exact ih

theorem Run.play {history : List (Moment α κ)} {s : Station α κ} (run : Run history s)
    (moves : List (Move α κ)) (sees : moves.all (Move.sees s.isPaused))
    (running : (s.executor.play history moves).2.hasEnded = false) :
    Run (s.executor.play history moves).1
      { s with executor := (s.executor.play history moves).2 } := by
  induction moves generalizing history s with
  | nil => exact run
  | cons m rest ih =>
    obtain ⟨first, others⟩ : m.sees s.isPaused ∧ rest.all (Move.sees s.isPaused) := by
      simpa using sees
    cases made : s.executor.move? m with
    | none =>
      simp only [Executor.play, made] at running ⊢
      exact ih run others running
    | some found =>
      obtain ⟨y, events⟩ := found
      simp only [Executor.play, made] at running ⊢
      have goesOn : y.hasEnded = false := by
        cases ended : y.hasEnded with
        | false => rfl
        | true =>
          rw [Executor.hasEnded_play ended] at running
          exact running
      exact ih (.move run made first goesOn) others running

theorem Run.owned {history : List (Moment α κ)} {s : Station α κ} (run : Run history s)
    (running : s.executor.hasEnded = false) :
    (if s.hasHandle then 1 else 0) < s.board.owners s.member ∧ s.member ∈ s.board.roster := by
  induction run with
  | new board =>
    refine ⟨?_, List.mem_append_right _ (List.mem_singleton_self _)⟩
    simp [PauseBoard.owners_register]
  | move run made sees running ih => exact ih (Executor.running_before made running)
  | ended run made running' gone ih => simp [gone] at running
  | wake run due sent ih =>
    refine ih ?_
    cases ended : Executor.hasEnded _ with
    | false => rfl
    | true => simp [Executor.send?, ended] at sent
  | wakeLost run due gone ih => exact ih running
  | take run scope ih => simpa [PauseBoard.take] using ih running
  | release run released ih =>
    obtain ⟨owned, listed⟩ := ih running
    rw [← PauseBoard.owners_release released] at owned
    have live := (PauseBoard.isLive_iff _ _).mpr (.inl (Nat.zero_lt_of_lt owned))
    exact ⟨owned, PauseBoard.mem_roster_release released listed live⟩
  | @register past s run ih =>
    obtain ⟨owned, listed⟩ := ih running
    have live := (PauseBoard.isLive_iff _ _).mpr (.inl (Nat.zero_lt_of_lt owned))
    have old := PauseBoard.lt_of_owners (Nat.zero_lt_of_lt owned)
    refine ⟨?_, List.mem_append_left _ (PauseBoard.mem_prune.mpr ⟨listed, live⟩)⟩
    rwa [PauseBoard.owners_register, if_neg (Nat.ne_of_lt old)]
  | disown run distinct ih =>
    obtain ⟨owned, listed⟩ := ih running
    exact ⟨by rwa [PauseBoard.owners_disown, if_neg distinct], listed⟩
  | dropHandle run held ih =>
    -- The handle is one owner and the executor another, so one is left.
    obtain ⟨owned, listed⟩ := ih running
    rw [if_pos held] at owned
    refine ⟨?_, listed⟩
    rw [PauseBoard.owners_disown, if_pos rfl]
    exact Nat.sub_pos_of_lt owned

end Station

end TerminalFeed
