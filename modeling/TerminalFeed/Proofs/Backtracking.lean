import TerminalFeed.Proofs.Resuming

/-!
What a call leaves behind. A call that runs out of bytes, or finds bytes that are
no frame's, has consumed nothing, however far it has read and wherever it started
from. A parser that has detached does so again whatever it is given.
-/

namespace TerminalFeed.Parser

open Framing

inductive Calls (p : Parser) : Parser → Prop
  | start : Calls p p
  | handle {q : Parser} (calls : Calls p q) (input : Bytes) : Calls p (q.handle input).parser
  | resume {q : Parser} (calls : Calls p q) (input : Bytes) (checkpoint : Option Checkpoint) :
      Calls p (q.resume input checkpoint).parser

def Reachable (q : Parser) : Prop :=
  ∃ connection limits, Calls (.new connection limits) q ∨ Calls (.recovery connection limits) q

/-- How a call of `p` on an input of so many bytes ends. -/
structure Result.Backtracks (p : Parser) (length : Nat) (r : Result) : Prop where
  inside : r.consumed ≤ length
  blocked : r.outcome = .blocked → r.consumed = 0 ∧ r.parser = p
  frame : ∀ f, r.outcome = .frame f → 0 < r.consumed ∧ r.parser.violation = none
  violation : ∀ v, r.outcome = .detach v → r.parser.violation = some v
  refused : ∀ v, r.outcome = .detach v → v ≠ .requested → r.consumed = 0
  -- A request is consumed by the call that finds it.
  requested : r.outcome = .detach .requested → p.violation = none → 0 < r.consumed
  -- Every later call says the same of any input, and its checkpoint is cleared.
  detached : ∀ v, r.outcome = .detach v → ∀ q, Calls r.parser q →
    q.state = .ground ∧ q.violation = some v ∧ ∀ input checkpoint,
      q.handle input = ⟨q, .detach v, 0, none⟩ ∧ q.resume input checkpoint = ⟨q, .detach v, 0, none⟩

variable {p q : Parser}

theorem resume_of_detached {v : Violation} (detached : p.violation = some v) (input : Bytes)
    (checkpoint : Option Checkpoint) : p.resume input checkpoint = ⟨p, .detach v, 0, none⟩ := by
  simp only [resume, go, detached]

theorem handle_of_detached {v : Violation} (detached : p.violation = some v) (input : Bytes) :
    p.handle input = ⟨p, .detach v, 0, none⟩ :=
  resume_of_detached detached input none

theorem Calls.eq_of_detached {v : Violation} (detached : p.violation = some v)
    (calls : Calls p q) : q = p := by
  induction calls with
  | start => rfl
  | handle calls input ih => rw [ih, handle_of_detached detached]
  | resume calls input checkpoint ih => rw [ih, resume_of_detached detached]

theorem lt_consumed_of_requested (p : Parser) (working : State) (offset : Nat) (rest : Bytes)
    (requested : (p.read working offset rest).outcome = .detach .requested) :
    offset < (p.read working offset rest).consumed := by
  revert requested
  refine read_induction (p := p) (motive := fun _ offset _ r =>
    r.outcome = .detach .requested → offset < r.consumed) ?_ ?_ working offset rest
  · intro working offset rest decided requested
    have accounts := transition_accounts p.rules working rest
    generalize transition p.rules working rest = step at accounts decided requested ⊢
    rw [Step.Accounts] at accounts
    rw [conclude] at requested ⊢
    cases event : step.event with
    | progress => exact absurd event decided
    | frame f => simp [event] at requested
    | blocked => simp [event, block] at requested
    | detach v =>
      rw [event] at accounts
      simp only [event, detach, Outcome.detach.injEq] at requested ⊢
      rw [if_pos requested]
      omega
  · intro working offset rest r progress _ later requested
    have := later requested
    omega

theorem resume_accounts (attached : p.violation = none) (input : Bytes)
    (checkpoint : Option Checkpoint) :
    ∃ offset, (p.resume input checkpoint).Accounts p offset (input.length - offset) ∧
      offset ≤ input.length ∧
      ((p.resume input checkpoint).outcome = .detach .requested →
        offset < (p.resume input checkpoint).consumed) := by
  have accounts := read_accounts p (p.outset input.length checkpoint).1
    (p.outset input.length checkpoint).2 (input.drop (p.outset input.length checkpoint).2)
  rw [List.length_drop] at accounts
  rw [resume_of_attached attached]
  exact ⟨_, accounts, outset_le _ _ _, lt_consumed_of_requested _ _ _ _⟩

def Settled (p : Parser) : Prop := ∀ v, p.violation = some v → p.state = .ground

theorem Settled.resume (settled : p.Settled) (input : Bytes) (checkpoint : Option Checkpoint) :
    (p.resume input checkpoint).parser.Settled := by
  cases violation : p.violation with
  | some v =>
    rw [resume_of_detached violation]
    exact settled
  | none =>
    obtain ⟨offset, accounts, -, -⟩ := resume_accounts violation input checkpoint
    generalize p.resume input checkpoint = r at accounts ⊢
    rw [Result.Accounts] at accounts
    cases outcome : r.outcome with
    | blocked =>
      rw [outcome] at accounts
      obtain ⟨c, rfl, -, -⟩ := accounts
      exact settled
    | frame f =>
      rw [outcome] at accounts
      obtain ⟨-, -, -, -, same⟩ := accounts
      intro v detached
      rw [same, violation] at detached
      cases detached
    | detach v =>
      rw [outcome] at accounts
      obtain ⟨reached, -, rfl⟩ := accounts
      exact fun _ _ => rfl

theorem Calls.settled (calls : Calls p q) (settled : p.Settled) : q.Settled := by
  induction calls with
  | start => exact settled
  | handle calls input ih => exact ih.resume input none
  | resume calls input checkpoint ih => exact ih.resume input checkpoint

theorem Reachable.settled (reachable : Reachable p) : p.Settled := by
  obtain ⟨connection, limits, calls | calls⟩ := reachable
  · exact calls.settled nofun
  · exact calls.settled nofun

theorem Settled.stays (settled : p.Settled) {v : Violation} (detached : p.violation = some v)
    (calls : Calls p q) :
    q.state = .ground ∧ q.violation = some v ∧ ∀ input checkpoint,
      q.handle input = ⟨q, .detach v, 0, none⟩ ∧
        q.resume input checkpoint = ⟨q, .detach v, 0, none⟩ := by
  rw [calls.eq_of_detached detached]
  exact ⟨settled v detached, detached, fun input checkpoint =>
    ⟨handle_of_detached detached input, resume_of_detached detached input checkpoint⟩⟩

theorem Settled.backtracks (settled : p.Settled) (input : Bytes)
    (checkpoint : Option Checkpoint) :
    (p.resume input checkpoint).Backtracks p input.length := by
  cases violation : p.violation with
  | some v =>
    rw [resume_of_detached violation]
    refine ⟨Nat.zero_le _, nofun, nofun, ?_, fun _ _ _ => rfl, ?_, ?_⟩
    · rintro _ ⟨⟩
      exact violation
    · intro _ attached
      rw [attached] at violation
      cases violation
    · rintro _ ⟨⟩ q calls
      exact settled.stays violation calls
  | none =>
    have after := settled.resume input checkpoint
    obtain ⟨offset, accounts, start, requested⟩ := resume_accounts violation input checkpoint
    generalize p.resume input checkpoint = r at accounts requested after ⊢
    rw [Result.Accounts, Nat.add_sub_cancel' start] at accounts
    cases outcome : r.outcome with
    | blocked =>
      rw [outcome] at accounts
      obtain ⟨c, rfl, -, -⟩ := accounts
      exact ⟨Nat.zero_le _, fun _ => ⟨rfl, rfl⟩, nofun, nofun, nofun, nofun, nofun⟩
    | frame f =>
      rw [outcome] at accounts
      obtain ⟨some, inside, -, -, same⟩ := accounts
      refine ⟨inside, by simp [outcome], ?_, by simp [outcome], by simp [outcome],
        by simp [outcome], by simp [outcome]⟩
      intro _ _
      exact ⟨Nat.zero_lt_of_lt some, by rw [same]; exact violation⟩
    | detach v =>
      rw [outcome] at accounts requested
      obtain ⟨reached, inside, rfl⟩ := accounts
      refine ⟨?_, nofun, nofun, ?_, ?_, ?_, ?_⟩
      · simp only [detach]
        split
        · exact inside
        · exact Nat.zero_le _
      · rintro _ ⟨⟩
        rfl
      · rintro _ ⟨⟩ unasked
        exact if_neg unasked
      · rintro ⟨⟩ _
        exact Nat.zero_lt_of_lt (requested rfl)
      · rintro _ ⟨⟩ q calls
        exact after.stays rfl calls

/-- Calls of a parser are exact about what they consume, and leave it as it was unless they
find a frame or detach, whatever checkpoint they start from. -/
theorem Reachable.calls_backtrack (reachable : Reachable p) (input : Bytes)
    (checkpoint : Option Checkpoint) :
    (p.handle input).Backtracks p input.length ∧
      (p.resume input checkpoint).Backtracks p input.length :=
  ⟨reachable.settled.backtracks input none, reachable.settled.backtracks input checkpoint⟩

/-- A checkpoint that was left by other bytes skips a sequence that is cut, and a request
stands behind it. -/
theorem calls_backtrack_stale :
    let bytes (text : String) : Bytes := Utf8.encode text.toList
    let stale := (recovery "c" ⟨16, 8⟩).resume (bytes "plain") none
    let input := bytes "\x1b]134\x1b]135;unhook\x07$ "
    let call := stale.parser.resume input stale.checkpoint
    stale.outcome = .blocked ∧ Reachable stale.parser ∧
      call.outcome = .detach .requested ∧ call.consumed = 18 ∧ input.length = 20 ∧
      (stale.parser.handle input).Backtracks stale.parser input.length ∧
      call.Backtracks stale.parser input.length := by
  intro bytes stale input call
  have reachable : Reachable stale.parser :=
    ⟨"c", ⟨16, 8⟩, .inr (.resume .start (bytes "plain") none)⟩
  refine ⟨by decide +kernel, reachable, by decide +kernel, by decide +kernel,
    by decide +kernel, ?_⟩
  exact reachable.calls_backtrack input stale.checkpoint

end TerminalFeed.Parser
