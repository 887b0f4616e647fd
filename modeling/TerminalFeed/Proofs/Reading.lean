import TerminalFeed.Parser
import TerminalFeed.Proofs.Transitions

/-!
A parser's call against the same call with more bytes behind its input. Where
the first one came to a frame or detached, so does the second, at the same
place. Where it ran out of bytes, the second is a call from its checkpoint.
-/

namespace TerminalFeed.Parser

open Framing

variable {p : Parser}

def read (p : Parser) (working : State) (offset : Nat) (rest : Bytes) : Result :=
  p.loop (rest.length + 1) working offset rest

def conclude (p : Parser) (offset : Nat) (rest : Bytes) (step : Step) : Result :=
  match step.event with
  | .progress => p.read step.state (offset + step.consumed) (rest.drop step.consumed)
  | .frame f => ⟨{ p with state := step.state }, .frame f, offset + step.consumed, none⟩
  | .blocked => p.block step.state offset
  | .detach v => p.detach v (offset + step.consumed)

theorem loop_nil (steps offset : Nat) (working : State) :
    p.loop (steps + 1) working offset [] = p.block working offset := by
  rw [loop]
  split
  · rfl
  · rw [transition_nil]
    rfl

theorem loop_congr {steps others offset : Nat} {working : State} {rest : Bytes}
    (enough : rest.length < steps) (enough' : rest.length < others) :
    p.loop steps working offset rest = p.loop others working offset rest := by
  -- A step that makes progress takes a byte, so what is left stays below both.
  induction steps generalizing others offset working rest with
  | zero => omega
  | succ steps ih =>
    cases others with
    | zero => omega
    | succ others =>
      cases rest with
      | nil => rw [loop_nil, loop_nil]
      | cons b rest =>
        have accounts := transition_accounts p.rules working (b :: rest)
        rw [loop, loop]
        simp only [List.isEmpty_cons, Bool.false_eq_true, false_and, if_false]
        cases event : (transition p.rules working (b :: rest)).event with
        | progress =>
          rw [Step.Accounts, event] at accounts
          have shorter : ((b :: rest).drop (transition p.rules working (b :: rest)).consumed).length
              ≤ rest.length := by
            rw [List.length_drop, List.length_cons]
            omega
          rw [List.length_cons] at enough enough'
          exact ih (by omega) (by omega)
        | frame | blocked | detach => rfl

theorem loop_eq_read {steps : Nat} (working : State) (offset : Nat) {rest : Bytes}
    (enough : rest.length < steps) :
    p.loop steps working offset rest = p.read working offset rest :=
  loop_congr enough (Nat.lt_succ_self _)

theorem read_eq (p : Parser) (working : State) (offset : Nat) (rest : Bytes) :
    p.read working offset rest = p.conclude offset rest (transition p.rules working rest) := by
  cases rest with
  | nil =>
    rw [read, List.length_nil, loop_nil, transition_nil]
    rfl
  | cons b rest =>
    have accounts := transition_accounts p.rules working (b :: rest)
    rw [read, loop, conclude]
    simp only [List.isEmpty_cons, Bool.false_eq_true, false_and, if_false]
    cases event : (transition p.rules working (b :: rest)).event with
    | progress =>
      rw [Step.Accounts, event] at accounts
      apply loop_eq_read
      rw [List.length_drop, List.length_cons]
      omega
    | frame | blocked | detach => rfl

theorem read_nil (p : Parser) (working : State) (offset : Nat) :
    p.read working offset [] = p.block working offset :=
  loop_nil 0 offset working

theorem go_eq_read {steps : Nat} (working : State) (offset : Nat) {rest : Bytes}
    (attached : p.violation = none) (enough : rest.length < steps) :
    p.go steps working offset rest = p.read working offset rest := by
  rw [go, attached]
  exact loop_eq_read working offset enough

theorem handle_eq_read (input : Bytes) (attached : p.violation = none) :
    p.handle input = p.read p.state 0 input :=
  go_eq_read p.state 0 attached (Nat.lt_succ_self _)

theorem outset_le (p : Parser) (length : Nat) (checkpoint : Option Checkpoint) :
    (p.outset length checkpoint).2 ≤ length := by
  unfold outset
  split
  · exact Nat.zero_le _
  · rename_i c kept
    exact of_decide_eq_true (Option.filter_eq_some_iff.mp kept).2

theorem resume_of_attached (attached : p.violation = none) (input : Bytes)
    (checkpoint : Option Checkpoint) :
    p.resume input checkpoint =
      p.read (p.outset input.length checkpoint).1 (p.outset input.length checkpoint).2
        (input.drop (p.outset input.length checkpoint).2) := by
  refine go_eq_read _ _ attached ?_
  rw [List.length_drop]
  omega

theorem detach_eq {v : Violation} (unasked : v ≠ .requested) (reached reached' : Nat) :
    p.detach v reached = p.detach v reached' := by
  rw [detach, detach, if_neg unasked, if_neg unasked]

theorem conclude_alike (p : Parser) {step later : Step} (alike : step.Alike later)
    (offset : Nat) (rest more : Bytes) (decided : step.event ≠ .progress) :
    p.conclude offset (rest ++ more) later = p.conclude offset rest step := by
  rcases alike with same | ⟨v, unasked, event, event'⟩
  · subst same
    rw [conclude, conclude]
    split
    · exact absurd ‹_› decided
    all_goals rfl
  · rw [conclude, conclude, event, event']
    exact detach_eq unasked _ _

theorem read_plain {working : State} {plain : Bytes} (offset : Nat) (more : Bytes)
    (greeted : working ≠ .initial) (some : plain ≠ []) (text : esc ∉ plain)
    (progress : (transition p.rules working plain).event = .progress) :
    p.read working offset (plain ++ more) =
      p.read (transition p.rules working plain).state (offset + plain.length) more := by
  by_cases ends : more.takeWhile (· ≠ esc) = []
  · rw [read_eq, transition_whole p.rules greeted some text ends, conclude, progress]
    dsimp only
    rw [transition_plain_consumed p.rules greeted some text, List.drop_left]
  · have cut := transition_cut p.rules greeted some text ends progress
    have accounts := transition_accounts p.rules working (plain ++ more)
    rw [read_eq, read_eq p _ _ more]
    rw [cut] at accounts ⊢
    generalize transition p.rules (transition p.rules working plain).state more = step
      at accounts ⊢
    rw [conclude, conclude]
    cases event : step.event with
    | progress =>
      dsimp only
      rw [List.drop_length_add_append, Nat.add_assoc]
    | frame f =>
      dsimp only
      rw [Nat.add_assoc]
    | detach v =>
      dsimp only
      rw [Nat.add_assoc]
    | blocked =>
      -- Plain bytes are never waited for.
      rw [Step.Accounts, event] at accounts
      have none := congrArg Step.consumed accounts
      have length := List.length_pos_iff.mpr some
      simp only [Step.blocked] at none
      omega

/-- Reading goes by steps, of which all but the last make progress. -/
theorem read_induction {motive : State → Nat → Bytes → Result → Prop}
    (last : ∀ working offset rest, (transition p.rules working rest).event ≠ .progress →
      motive working offset rest (p.conclude offset rest (transition p.rules working rest)))
    (further : ∀ working offset rest r, (transition p.rules working rest).event = .progress →
      p.read working offset rest = r →
      motive (transition p.rules working rest).state
        (offset + (transition p.rules working rest).consumed)
        (rest.drop (transition p.rules working rest).consumed) r →
      motive working offset rest r)
    (working : State) (offset : Nat) (rest : Bytes) :
    motive working offset rest (p.read working offset rest) := by
  induction length : rest.length using Nat.strongRecOn generalizing working offset rest with
  | ind n ih =>
    by_cases progress : (transition p.rules working rest).event = .progress
    · have accounts := transition_accounts p.rules working rest
      rw [Step.Accounts, progress] at accounts
      apply further working offset rest _ progress rfl
      rw [read_eq, conclude, progress]
      refine ih _ ?_ _ _ _ rfl
      rw [List.length_drop]
      omega
    · rw [read_eq]
      exact last working offset rest progress

/-- How the result of a call on so many bytes, from `offset` on, accounts for them. -/
def Result.Accounts (p : Parser) (offset length : Nat) (r : Result) : Prop :=
  match r.outcome with
  | .blocked => ∃ c : Checkpoint,
      r = p.block c.state c.offset ∧ offset ≤ c.offset ∧ c.offset ≤ offset + length
  | .frame _ =>
      offset < r.consumed ∧ r.consumed ≤ offset + length ∧ r.checkpoint = none ∧
        r.parser.state ≠ .initial ∧ r.parser = { p with state := r.parser.state }
  | .detach v => ∃ reached ≤ offset + length, r = p.detach v reached

theorem read_accounts (p : Parser) (working : State) (offset : Nat) (rest : Bytes) :
    (p.read working offset rest).Accounts p offset rest.length := by
  refine read_induction (p := p) (motive := fun _ offset rest r => r.Accounts p offset rest.length)
    ?_ ?_ working offset rest
  · intro working offset rest decided
    have accounts := transition_accounts p.rules working rest
    generalize transition p.rules working rest = step at accounts decided ⊢
    rw [conclude]
    cases event : step.event with
    | progress => exact absurd event decided
    | blocked => exact ⟨⟨step.state, offset⟩, rfl, Nat.le_refl _, Nat.le_add_right _ _⟩
    | frame f =>
      rw [Step.Accounts, event] at accounts
      exact ⟨by dsimp only; omega, by dsimp only; omega, rfl, accounts.2.2, rfl⟩
    | detach v =>
      rw [Step.Accounts, event] at accounts
      exact ⟨offset + step.consumed, by omega, rfl⟩
  · intro working offset rest r progress _ later
    have accounts := transition_accounts p.rules working rest
    rw [Step.Accounts, progress] at accounts
    have length : offset + (transition p.rules working rest).consumed
        + (rest.drop (transition p.rules working rest).consumed).length
        = offset + rest.length := by
      rw [List.length_drop]
      omega
    unfold Result.Accounts at later ⊢
    rw [length] at later
    cases outcome : r.outcome with
    | blocked =>
      rw [outcome] at later
      obtain ⟨c, same, ahead, inside⟩ := later
      exact ⟨c, same, by omega, inside⟩
    | frame f =>
      rw [outcome] at later
      exact ⟨by have := later.1; omega, later.2⟩
    | detach v =>
      rw [outcome] at later
      exact later

/-- What the result of reading `rest` says of reading on, where `more` comes behind it. -/
def Result.Foretells (p : Parser) (working : State) (offset : Nat) (rest more : Bytes)
    (r : Result) : Prop :=
  match r.checkpoint with
  | none => p.read working offset (rest ++ more) = r
  | some c => ∃ done left, rest = done ++ left ∧ c.offset = offset + done.length ∧
      Admits p.rules.limits.envelope c.state (left ++ more) ∧
      p.read working offset (rest ++ more) = p.read c.state c.offset (left ++ more)

theorem read_foretells (p : Parser) (working : State) (offset : Nat) (rest more : Bytes)
    (fits : Admits p.rules.limits.envelope working (rest ++ more)) :
    (p.read working offset rest).Foretells p working offset rest more := by
  revert fits
  refine read_induction (p := p) (motive := fun working offset rest r =>
    Admits p.rules.limits.envelope working (rest ++ more) →
      r.Foretells p working offset rest more) ?_ ?_ working offset rest
  · intro working offset rest decided fits
    by_cases blocked : (transition p.rules working rest).event = .blocked
    · have accounts := transition_accounts p.rules working rest
      rw [Step.Accounts, blocked] at accounts
      rw [accounts]
      exact ⟨[], rest, rfl, rfl, fits, rfl⟩
    · rcases transition_append p.rules more fits blocked with alike | ⟨progress, -⟩
      · have same := conclude_alike p alike offset rest more decided
        rw [← read_eq] at same
        unfold Result.Foretells
        split
        · exact same
        · rename_i c found
          unfold conclude at found
          split at found
          · exact absurd ‹_› decided
          · cases found
          · exact absurd ‹_› blocked
          · cases found
      · exact absurd progress decided
  · intro working offset rest r progress reads later fits
    have accounts := transition_accounts p.rules working rest
    rw [Step.Accounts, progress] at accounts
    obtain ⟨-, inside, greeted⟩ := accounts
    have after := fits.drop greeted (transition p.rules working rest).consumed
    rw [List.drop_append_of_le_length inside] at after
    rcases transition_append p.rules more fits (by rw [progress]; simp) with alike | plain
    · -- The first step is taken again, and the rest is foretold.
      have same : transition p.rules working (rest ++ more) = transition p.rules working rest := by
        rcases alike with same | ⟨v, -, event, -⟩
        · exact same
        · rw [progress] at event
          cases event
      have first : p.read working offset (rest ++ more) =
          p.read (transition p.rules working rest).state
            (offset + (transition p.rules working rest).consumed)
            (rest.drop (transition p.rules working rest).consumed ++ more) := by
        rw [read_eq, same, conclude, progress]
        dsimp only
        rw [List.drop_append_of_le_length inside]
      have foretold := later after
      unfold Result.Foretells at foretold ⊢
      rw [first]
      split at foretold
      · exact foretold
      · obtain ⟨done, left, parts, reached, admits, goesOn⟩ := foretold
        refine ⟨rest.take (transition p.rules working rest).consumed ++ done, left, ?_, ?_,
          admits, goesOn⟩
        · rw [List.append_assoc, ← parts, List.take_append_drop]
        · rw [reached, List.length_append, List.length_take, Nat.min_eq_left inside,
            Nat.add_assoc]
    · -- The whole of `rest` was plain, and `more` may go on with it.
      obtain ⟨-, initial, some, text⟩ := plain
      have alone := read_plain (p := p) offset [] initial some text progress
      rw [List.append_nil, reads, read_nil] at alone
      have consumed := transition_plain_consumed p.rules initial some text
      rw [consumed, List.drop_length, List.nil_append] at after
      rw [alone]
      exact ⟨rest, [], (List.append_nil rest).symm, rfl, after,
        read_plain offset more initial some text progress⟩

end TerminalFeed.Parser
