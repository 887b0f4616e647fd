import TerminalFeed.Proofs.Reading

/-!
Resuming from a checkpoint against reading again from the start. Both come to
the same as long as no input has ended inside a number that had outgrown the
limit: such a number is passed over there and then, and what comes behind it is
no longer taken for a part of its sequence.
-/

namespace TerminalFeed.Parser

open Framing

/-- A call that has run out of bytes says what the same call comes to on a longer
input: what its checkpoint comes to on what is left. -/
theorem read_append_of_blocked (p : Parser) {working : State} {offset : Nat} {rest : Bytes}
    (more : Bytes) (fits : EndFits p.rules.limits.envelope rest)
    (blocked : (p.read working offset rest).outcome = .blocked) :
    ∃ (c : Checkpoint) (done left : Bytes), rest = done ++ left ∧ c.offset = offset + done.length ∧
      p.read working offset rest = p.block c.state c.offset ∧
      p.read working offset (rest ++ more) = p.read c.state c.offset (left ++ more) := by
  revert fits blocked
  refine read_induction (p := p) (motive := fun working offset rest r =>
    EndFits p.rules.limits.envelope rest → r.outcome = .blocked →
      ∃ (c : Checkpoint) (done left : Bytes), rest = done ++ left ∧
        c.offset = offset + done.length ∧ r = p.block c.state c.offset ∧
        p.read working offset (rest ++ more) = p.read c.state c.offset (left ++ more))
    ?_ ?_ working offset rest
  · intro working offset rest decided fits blocked
    have accounts := transition_accounts p.rules working rest
    generalize transition p.rules working rest = step at accounts decided blocked ⊢
    rw [conclude] at blocked ⊢
    rw [Step.Accounts] at accounts
    cases event : step.event with
    | progress => exact absurd event decided
    | frame f => simp [event] at blocked
    | detach v => simp [event, detach] at blocked
    | blocked =>
      rw [event] at accounts
      refine ⟨⟨working, offset⟩, [], rest, rfl, rfl, ?_, rfl⟩
      rw [accounts]
      rfl
  · intro working offset rest r progress reads later fits blocked
    have accounts := transition_accounts p.rules working rest
    rw [Step.Accounts, progress] at accounts
    obtain ⟨-, inside, -⟩ := accounts
    obtain ⟨greeted, same | ⟨some, text⟩⟩ :=
      transition_append_of_progress p.rules more fits progress
    · -- The first step is taken again, and the rest is as it was.
      obtain ⟨c, done, left, parts, reached, ends, goesOn⟩ :=
        later (fits.of_suffix (List.drop_suffix _ _)) blocked
      refine ⟨c, rest.take (transition p.rules working rest).consumed ++ done, left, ?_, ?_,
        ends, ?_⟩
      · rw [List.append_assoc, ← parts, List.take_append_drop]
      · rw [reached, List.length_append, List.length_take, Nat.min_eq_left inside, Nat.add_assoc]
      · rw [read_eq, same, conclude, progress]
        dsimp only
        rw [List.drop_append_of_le_length inside, goesOn]
    · -- The whole of `rest` was plain, and `more` may go on with it.
      have alone := read_plain (p := p) offset [] greeted some text progress
      rw [List.append_nil, reads, read_nil] at alone
      exact ⟨⟨_, _⟩, rest, [], (List.append_nil rest).symm, rfl, alone,
        read_plain offset more greeted some text progress⟩

/-- Calls on inputs that grow, by a parser that was `p` at first. All calls on
the inputs before, last first, have blocked; `q` is offered `input` now, and
`checkpoint` is what the last call has left. -/
inductive Offers (p : Parser) : List Bytes → Parser → Bytes → Option Checkpoint → Prop
  | first (input : Bytes) : Offers p [] p input none
  | again {before : List Bytes} {q : Parser} {input : Bytes} {checkpoint : Option Checkpoint}
      (offers : Offers p before q input checkpoint)
      (blocked : (q.resume input checkpoint).outcome = .blocked) (more : Bytes) :
      Offers p (input :: before) (q.resume input checkpoint).parser (input ++ more)
        (q.resume input checkpoint).checkpoint

theorem attached_of_blocked {p : Parser} {input : Bytes}
    (blocked : (p.handle input).outcome = .blocked) : p.violation = none := by
  cases violation : p.violation with
  | none => rfl
  | some v => simp [handle, go, violation] at blocked

theorem resume_eq_read {p : Parser} {input : Bytes} {c : Checkpoint} (attached : p.violation = none)
    (inside : c.offset ≤ input.length) :
    p.resume input (some c) = p.read c.state c.offset (input.drop c.offset) := by
  have start : p.outset input.length (some c) = (c.state, c.offset) := by
    rw [outset, Option.filter_some_pos (by simpa using inside)]
  rw [resume_of_attached attached, start]

/-- Resuming comes to what handling the whole input comes to, where no input
before it has ended inside a number that is too long. -/
theorem resume_eq_handle {p q : Parser} {before : List Bytes} {input : Bytes}
    {checkpoint : Option Checkpoint} (offers : Offers p before q input checkpoint)
    (fits : ∀ shorter ∈ before, EndFits p.rules.limits.envelope shorter) :
    q.resume input checkpoint = p.handle input := by
  induction offers with
  | first input => rfl
  | @again before q input checkpoint offers blocked more ih =>
    have same := ih fun shorter member => fits shorter (.tail _ member)
    rw [same] at blocked ⊢
    have attached := attached_of_blocked blocked
    rw [handle_eq_read input attached] at blocked ⊢
    obtain ⟨c, done, left, parts, reached, ends, goesOn⟩ :=
      read_append_of_blocked p more (fits input (.head _)) blocked
    rw [Nat.zero_add] at reached
    rw [ends, handle_eq_read _ attached, goesOn]
    have inside : c.offset ≤ (input ++ more).length := by
      rw [parts, reached, List.length_append, List.length_append]
      omega
    have whole : (input ++ more).drop c.offset = left ++ more := by
      rw [parts, reached, List.append_assoc, List.drop_left]
    rw [← whole]
    exact resume_eq_read attached inside

/-- The header of a block is cut, and so is its end. -/
theorem resume_block_in_pieces :
    let p : Parser := .recovery "c" ⟨16, 8⟩
    let bytes (text : String) : Bytes := Utf8.encode text.toList
    let first := p.resume (bytes "\x1b]134;%ou") none
    let second := first.parser.resume (bytes "\x1b]134;%ou" ++ bytes "tput X 3 1 0\x07a\x1b")
      first.checkpoint
    let whole := bytes "\x1b]134;%ou" ++ bytes "tput X 3 1 0\x07a\x1b" ++ bytes "]134;%end X\x07"
    (∀ shorter ∈ [bytes "\x1b]134;%ou" ++ bytes "tput X 3 1 0\x07a\x1b", bytes "\x1b]134;%ou"],
        NumbersFit 16 shorter) ∧
      first.outcome = .blocked ∧ second.outcome = .blocked ∧
      (p.handle whole).outcome = .frame (.output 3 1 0 [97]) ∧
      second.parser.resume whole second.checkpoint = p.handle whole := by
  intro p bytes first second whole
  have fit : ∀ shorter ∈ [bytes "\x1b]134;%ou" ++ bytes "tput X 3 1 0\x07a\x1b",
      bytes "\x1b]134;%ou"], NumbersFit 16 shorter := by decide +kernel
  have waits : first.outcome = .blocked := by decide +kernel
  have waits' : second.outcome = .blocked := by decide +kernel
  refine ⟨fit, waits, waits', by decide +kernel, ?_⟩
  exact resume_eq_handle (.again (.again (.first _) waits _) waits' _) fun shorter member =>
    (fit shorter member).endFits

/-- A number of seven digits is too long for a limit of eight bytes while it is
all there is, and not with a semicolon behind it. -/
theorem not_resume_eq_handle :
    ¬∀ (p q : Parser) (before : List Bytes) (input : Bytes) (checkpoint : Option Checkpoint),
      1 ≤ p.rules.limits.envelope → 1 ≤ p.rules.limits.output →
      Offers p before q input checkpoint →
      (q.resume input checkpoint).outcome = (p.handle input).outcome ∧
        (q.resume input checkpoint).consumed = (p.handle input).consumed ∧
        (q.resume input checkpoint).parser.state = (p.handle input).parser.state ∧
        (q.resume input checkpoint).parser.violation = (p.handle input).parser.violation := by
  intro claim
  have offers : Offers (.recovery "c" ⟨8, 8⟩) _ _ _ _ :=
    .again (.first (Utf8.encode "\x1b]0000134".toList)) (by decide +kernel)
      (Utf8.encode ";begin A\x07".toList)
  exact absurd (claim _ _ _ _ _ (by decide) (by decide) offers).1 (by decide +kernel)

end TerminalFeed.Parser
