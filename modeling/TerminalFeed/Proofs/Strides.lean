import TerminalFeed.Proofs.Backtracking
import TerminalFeed.Proofs.Envelopes

/-!
How far a step goes. One that is not blocked takes a byte at least and none behind the
input, so a call is over after one step more than its input has bytes. What a unit that is
complete comes to hangs on its own bytes, and on nothing that stands behind them.
-/

namespace TerminalFeed

theorem Heads.again {payload close more header : Bytes} {code : Option UInt16}
    (heads : Heads (payload ++ close ++ more) header code) (closes : Scan.Closes close)
    (other : Bytes) : Heads (payload ++ close ++ other) header code := by
  cases heads with
  | numbered some all => exact .numbered some all
  | bare free =>
    refine .bare ?_
    intro digits rest some all whole
    obtain ⟨b, member, text⟩ := closes.exists_mem
    -- The end of the payload is no digit, so the semicolon would stand before it.
    have outside : ¬∃ more, digits = payload ++ close ++ more := by
      rintro ⟨more, rfl⟩
      have digit := List.all_eq_true.mp all b (by simp [member])
      rw [text] at digit
      cases digit
    rcases List.append_eq_append_iff.mp whole with ⟨more, rest, -⟩ | ⟨inner, parts, same⟩
    · exact outside ⟨more, rest⟩
    · cases inner with
      | nil => exact outside ⟨[], by rw [List.append_nil] at parts ⊢; exact parts.symm⟩
      | cons c inner =>
        obtain ⟨rfl, -⟩ := List.cons.inj same
        exact free digits (inner ++ more) some all (by rw [parts]; simp)

theorem Leads.again {limit : Nat} {input : Bytes} {e : Envelope} (leads : Leads limit input e)
    (more : Bytes) : Leads limit (input.take e.length ++ more) e := by
  cases leads with
  | @envelope header payload close _ code heads noEsc noBel fits closes =>
    have whole := Leads.envelope (heads.again closes more) noEsc noBel fits closes
    rw [← List.append_assoc, ← List.append_assoc] at whole ⊢
    dsimp only
    rw [List.take_left]
    exact whole

namespace Framing

/-- Whether an event is the outcome of a complete unit: a frame, a request to detach, or a
line or header that is none. Bytes that are out of place, and what outgrows a limit, are
refused before they have come to an end. -/
def Event.isSettled : Event → Bool
  | .frame _ => true
  | .detach (.unexpectedBytes _) | .detach (.envelopeTooLarge _)
  | .detach (.outputTooLarge ..) => false
  | .detach _ => true
  | .progress | .blocked => false

theorem extend_not_settled (rules : Rules) (block : OutputBlock) (length : Nat) (input : Bytes) :
    (extend rules block length input).event.isSettled = false := by
  unfold extend
  split <;> rfl

theorem accept_consumed (rules : Rules) (code : UInt16) (text : String) (length : Nat) :
    (accept rules code text length).consumed = length := by
  unfold accept
  dsimp only
  repeat' split
  all_goals rfl

theorem answer_settled {rules : Rules} {state : State} {input : Bytes} {found : Scan}
    (settled : (answer rules state input found).event.isSettled) :
    ∃ e, found = .envelope e ∧ (answer rules state input found).consumed = e.length ∧
      ∀ other, answer rules state other found = answer rules state input found := by
  cases found with
  | incomplete | tooLarge => cases settled
  | other length =>
    cases state with
    | output block => rw [answer, extend_not_settled] at settled; cases settled
    | initial | ground | body => cases settled
  | envelope e =>
    refine ⟨e, rfl, ?_⟩
    cases state with
    | output block =>
      simp only [answer] at settled ⊢
      split at settled
      · rename_i ended
        simp only [if_pos ended, implies_true, and_self]
      · rw [extend_not_settled] at settled
        cases settled
    | initial | ground =>
      refine ⟨?_, fun _ => rfl⟩
      simp only [answer]
      split
      · exact accept_consumed rules _ _ _
      · rfl
    | body session =>
      refine ⟨?_, fun _ => rfl⟩
      simp only [answer]
      split
      · split <;> rfl
      · rfl

theorem greet_feed (rules : Rules) {line : Bytes} (free : 10 ∉ line) (rest other : Bytes) :
    greet rules (line ++ 10 :: rest) = greet rules (line ++ 10 :: other) := by
  simp only [greet, lengthBefore_eq, Nat.zero_add, takeWhile_line rest free,
    takeWhile_line other free, List.take_left]
  rw [if_neg (by simp), if_neg (by simp)]

theorem greet_feed_consumed (rules : Rules) {line : Bytes} (free : 10 ∉ line) (rest : Bytes) :
    (greet rules (line ++ 10 :: rest)).consumed = line.length + 1 := by
  simp only [greet, lengthBefore_eq, Nat.zero_add, takeWhile_line rest free]
  rw [if_neg (by simp)]
  split <;> rfl

theorem greet_again {rules : Rules} {input : Bytes}
    (settled : (greet rules input).event.isSettled) (more : Bytes) :
    greet rules (input.take (greet rules input).consumed ++ more) = greet rules input := by
  by_cases newline : 10 ∈ input
  · obtain ⟨line, rest, rfl, free⟩ := List.eq_append_cons_of_mem newline
    rw [greet_feed_consumed rules free, List.take_length_add_append, List.append_assoc]
    exact greet_feed rules free more rest
  · have whole := takeWhile_ne_append newline []
    rw [List.append_nil, List.takeWhile_nil, List.append_nil] at whole
    unfold greet at settled
    rw [lengthBefore_eq, Nat.zero_add, whole, if_pos rfl] at settled
    split at settled <;> cases settled

theorem transition_again {rules : Rules} {state : State} {input : Bytes}
    (settled : (transition rules state input).event.isSettled) (more : Bytes) :
    transition rules state (input.take (transition rules state input).consumed ++ more) =
      transition rules state input := by
  by_cases initial : state = .initial
  · subst initial
    exact greet_again settled more
  · rw [transition_eq_answer rules input initial] at settled ⊢
    obtain ⟨e, found, consumed, same⟩ := answer_settled settled
    have again := scan_eq_envelope_iff.mpr ((scan_eq_envelope_iff.mp found).again more)
    rw [transition_eq_answer rules _ initial, consumed, again, ← found]
    exact same _

end Framing

namespace Parser

open Framing

/-- Steps over `rest` until one of them ends the call, and how many they are. Nothing bounds
them here. -/
inductive Treads (p : Parser) : Nat → State → Nat → Bytes → Result → Prop
  | spent {working : State} {offset : Nat} (begun : 0 < offset) :
      Treads p 0 working offset [] (p.block working offset)
  | blocked {working : State} {offset : Nat} {rest : Bytes} (more : ¬(rest = [] ∧ 0 < offset))
      (event : (transition p.rules working rest).event = .blocked) :
      Treads p 1 working offset rest (p.block (transition p.rules working rest).state offset)
  | frame {working : State} {offset : Nat} {rest : Bytes} {f : Frame}
      (more : ¬(rest = [] ∧ 0 < offset))
      (event : (transition p.rules working rest).event = .frame f) :
      Treads p 1 working offset rest ⟨{ p with state := (transition p.rules working rest).state },
        .frame f, offset + (transition p.rules working rest).consumed, none⟩
  | detach {working : State} {offset : Nat} {rest : Bytes} {v : Violation}
      (more : ¬(rest = [] ∧ 0 < offset))
      (event : (transition p.rules working rest).event = .detach v) :
      Treads p 1 working offset rest
        (p.detach v (offset + (transition p.rules working rest).consumed))
  | further {n : Nat} {working : State} {offset : Nat} {rest : Bytes} {r : Result}
      (more : ¬(rest = [] ∧ 0 < offset))
      (event : (transition p.rules working rest).event = .progress)
      (treads : Treads p n (transition p.rules working rest).state
        (offset + (transition p.rules working rest).consumed)
        (rest.drop (transition p.rules working rest).consumed) r) :
      Treads p (n + 1) working offset rest r

inductive Goes (p : Parser) (input : Bytes) (checkpoint : Option Checkpoint) : Nat → Result → Prop
  | detached {v : Violation} (violation : p.violation = some v) :
      Goes p input checkpoint 0 ⟨p, .detach v, 0, none⟩
  | attached {n : Nat} {r : Result} (violation : p.violation = none)
      (treads : Treads p n (p.outset input.length checkpoint).1 (p.outset input.length checkpoint).2
        (input.drop (p.outset input.length checkpoint).2) r) :
      Goes p input checkpoint n r

variable {p : Parser} {n offset : Nat} {working : State} {rest : Bytes} {r : Result}

theorem length_drop_of_progress (event : (transition p.rules working rest).event = .progress) :
    (rest.drop (transition p.rules working rest).consumed).length < rest.length := by
  have accounts := transition_accounts p.rules working rest
  rw [Step.Accounts, event] at accounts
  rw [List.length_drop]
  omega

theorem Treads.le (treads : Treads p n working offset rest r) : n ≤ rest.length + 1 := by
  induction treads with
  | spent begun => exact Nat.zero_le _
  | blocked more event | frame more event | detach more event => exact Nat.le_add_left 1 _
  | further more event treads ih =>
    have shorter := length_drop_of_progress event
    omega

theorem Treads.eq_read (treads : Treads p n working offset rest r) :
    r = p.read working offset rest := by
  induction treads with
  | spent begun => rw [read_nil]
  | blocked more event | frame more event | detach more event => rw [read_eq, conclude, event]
  | further more event treads ih => rw [read_eq, conclude, event, ih]

theorem exists_treads (p : Parser) (working : State) (offset : Nat) (rest : Bytes) :
    ∃ n, Treads p n working offset rest (p.read working offset rest) := by
  refine read_induction (p := p) (motive := fun working offset rest r =>
    ∃ n, Treads p n working offset rest r) ?_ ?_ working offset rest
  · intro working offset rest decided
    by_cases spent : rest = [] ∧ 0 < offset
    · obtain ⟨rfl, begun⟩ := spent
      rw [transition_nil]
      exact ⟨0, .spent begun⟩
    · refine ⟨1, ?_⟩
      rw [conclude]
      cases event : (transition p.rules working rest).event with
      | progress => exact absurd event decided
      | blocked => exact .blocked spent event
      | frame f => exact .frame spent event
      | detach v => exact .detach spent event
  · rintro working offset rest r event - ⟨n, treads⟩
    refine ⟨n + 1, .further ?_ event treads⟩
    rintro ⟨rfl, -⟩
    rw [transition_nil] at event
    cases event

theorem exists_goes (p : Parser) (input : Bytes) (checkpoint : Option Checkpoint) :
    ∃ n, Goes p input checkpoint n (p.resume input checkpoint) := by
  cases violation : p.violation with
  | some v =>
    rw [resume_of_detached violation]
    exact ⟨0, .detached violation⟩
  | none =>
    obtain ⟨n, treads⟩ := exists_treads p (p.outset input.length checkpoint).1
      (p.outset input.length checkpoint).2 (input.drop (p.outset input.length checkpoint).2)
    rw [resume_of_attached violation]
    exact ⟨n, .attached violation treads⟩

theorem Goes.le {input : Bytes} {checkpoint : Option Checkpoint}
    (goes : Goes p input checkpoint n r) : n ≤ input.length + 1 := by
  cases goes with
  | detached violation => exact Nat.zero_le _
  | attached violation treads =>
    have short := treads.le
    rw [List.length_drop] at short
    omega

theorem Goes.eq_resume {input : Bytes} {checkpoint : Option Checkpoint}
    (goes : Goes p input checkpoint n r) : r = p.resume input checkpoint := by
  cases goes with
  | detached violation => rw [resume_of_detached violation]
  | attached violation treads => rw [treads.eq_read, resume_of_attached violation]

end Parser

namespace Framing

structure Advances (rules : Rules) (state : State) (input : Bytes) : Prop where
  -- A step is blocked and changes nothing, or takes a byte at least.
  takes : transition rules state input = .blocked state ∨
    (transition rules state input).event ≠ .blocked ∧
      0 < (transition rules state input).consumed ∧
      (transition rules state input).consumed ≤ input.length
  -- What follows a unit that is complete does not matter to it.
  again : (transition rules state input).event.isSettled →
    ∀ more, transition rules state (input.take (transition rules state input).consumed ++ more) =
      transition rules state input
  -- Every call on the input ends, after one step more than it has bytes at the most.
  ends : ∀ (p : Parser) (checkpoint : Option Checkpoint),
    (∃ n, p.Goes input checkpoint n (p.resume input checkpoint)) ∧
      ∀ n r, p.Goes input checkpoint n r →
        n ≤ input.length + 1 ∧ r = p.resume input checkpoint

/-- Every step makes progress within its input, and all that is complete is local. -/
theorem transition_advances (rules : Rules) (state : State) (input : Bytes) :
    Advances rules state input where
  takes := by
    have accounts := transition_accounts rules state input
    rw [Step.Accounts] at accounts
    cases event : (transition rules state input).event with
    | blocked =>
      rw [event] at accounts
      exact .inl accounts
    | progress | frame f | detach v =>
      rw [event] at accounts
      refine .inr ⟨?_, accounts.1, accounts.2.1⟩
      intro blocked
      cases blocked
  again := transition_again
  ends p checkpoint :=
    ⟨p.exists_goes input checkpoint, fun _ _ goes => ⟨goes.le, goes.eq_resume⟩⟩

end Framing

end TerminalFeed
