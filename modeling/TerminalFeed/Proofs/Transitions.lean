import TerminalFeed.Framing
import TerminalFeed.Proofs.Scanning

/-!
One step against the same step with more bytes behind its input. A step that is
not blocked is taken again as it was, but for two cases: a violation may be
reported over more bytes, and a run of plain bytes may turn out longer. A
longer run comes to what its two parts come to one after the other.
-/

namespace TerminalFeed

theorem size_appendList (raw : Array UInt8) (data : Bytes) :
    (raw ++ data).size = raw.size + data.length := by
  rw [← Array.length_toList, Array.toList_appendList, List.length_append, Array.length_toList]

/-- The greeting line, if it has ended, is short enough. -/
def GreetingFits (limit : Nat) (bytes : Bytes) : Prop :=
  ∀ line rest, line ++ 10 :: rest = bytes → 10 ∉ line → line.length ≤ limit

theorem GreetingFits.of_append {limit : Nat} {bytes more : Bytes}
    (fits : GreetingFits limit (bytes ++ more)) : GreetingFits limit bytes := by
  intro line rest whole free
  exact fits line (rest ++ more) (by rw [← whole]; simp) free

theorem takeWhile_line {line : Bytes} (rest : Bytes) (free : 10 ∉ line) :
    (line ++ 10 :: rest).takeWhile (· ≠ 10) = line := by
  rw [takeWhile_ne_append free, List.takeWhile_cons_of_neg (by simp), List.append_nil]

theorem greetingFits_iff {limit : Nat} {bytes : Bytes} :
    GreetingFits limit bytes ↔ (10 ∈ bytes → (bytes.takeWhile (· ≠ 10)).length ≤ limit) := by
  constructor
  · intro fits newline
    obtain ⟨line, rest, whole, free⟩ := List.eq_append_cons_of_mem newline
    subst whole
    rw [takeWhile_line rest free]
    exact fits line rest rfl free
  · intro short line rest whole free
    subst whole
    have length := short (List.mem_append_right _ List.mem_cons_self)
    rwa [takeWhile_line rest free] at length

instance decidableGreetingFits (limit : Nat) (bytes : Bytes) :
    Decidable (GreetingFits limit bytes) :=
  decidable_of_iff _ greetingFits_iff.symm

theorem GreetingFits.length_takeWhile_le {limit : Nat} {bytes : Bytes}
    (fits : GreetingFits limit bytes)
    (ended : (bytes.takeWhile (· ≠ 10)).length ≠ bytes.length) :
    (bytes.takeWhile (· ≠ 10)).length ≤ limit := by
  apply greetingFits_iff.mp fits
  apply Decidable.byContradiction
  intro free
  have whole := takeWhile_ne_append free []
  rw [List.append_nil, List.takeWhile_nil, List.append_nil] at whole
  exact ended (congrArg List.length whole)

namespace Framing

/-- Whether no limit of a number or of the greeting line is overrun in `bytes`,
read from `state` on. -/
structure Admits (limit : Nat) (state : State) (bytes : Bytes) : Prop where
  numbers : NumbersFit limit bytes
  greeting : state = .initial → GreetingFits limit bytes

theorem Admits.drop {limit : Nat} {state after : State} {bytes : Bytes}
    (fits : Admits limit state bytes) (greeted : after ≠ .initial) (n : Nat) :
    Admits limit after (bytes.drop n) :=
  ⟨fits.numbers.of_suffix (List.drop_suffix n bytes), fun initial => absurd initial greeted⟩

def Step.Accounts (state : State) (length : Nat) (step : Step) : Prop :=
  match step.event with
  | .blocked => step = .blocked state
  | .progress | .frame _ => 0 < step.consumed ∧ step.consumed ≤ length ∧ step.state ≠ .initial
  | .detach _ => 0 < step.consumed ∧ step.consumed ≤ length ∧ step.state = .ground

theorem accept_accounts (rules : Rules) (code : UInt16) (text : String) {n length : Nat}
    (state : State) (some : 0 < n) (inside : n ≤ length) :
    (accept rules code text n).Accounts state length := by
  unfold accept
  dsimp only
  repeat' split
  all_goals exact ⟨some, inside, by simp [Step.detach]⟩

theorem extend_accounts (rules : Rules) (block : OutputBlock) {n length : Nat} (input : Bytes)
    (state : State) (some : 0 < n) (inside : n ≤ length) :
    (extend rules block n input).Accounts state length := by
  unfold extend
  split
  · exact ⟨some, inside, rfl⟩
  · exact ⟨some, inside, by simp⟩

theorem greet_accounts (rules : Rules) (input : Bytes) :
    (greet rules input).Accounts .initial input.length := by
  have short := (List.takeWhile_prefix (· ≠ 10) (l := input)).length_le
  unfold greet
  rw [lengthBefore_eq, Nat.zero_add]
  dsimp only
  split
  · split
    · exact ⟨by simp only [Step.detach]; omega, by simp only [Step.detach]; omega, rfl⟩
    · exact rfl
  · split
    · exact ⟨Nat.succ_pos _, by simp only [Step.detach]; omega, rfl⟩
    · exact ⟨Nat.succ_pos _, by dsimp only; omega, by simp⟩

def answer (rules : Rules) (state : State) (input : Bytes) : Scan → Step
  | .incomplete => .blocked state
  | .tooLarge => .detach input.length (.envelopeTooLarge rules.limits.envelope)
  | .other length =>
    match state with
    | .body session => .detach length (.unexpectedBytes session)
    | .output block => extend rules block length input
    | _ => ⟨.ground, length, .progress⟩
  | .envelope e =>
    match state with
    | .body session =>
      if e.isRemote then
        match endStatus? session e.text with
        | some status => ⟨.ground, e.length, .frame (.sessionEnd session status)⟩
        | none => ⟨.body session, e.length, .frame (.sessionLine session e.text)⟩
      else .detach e.length (.unexpectedBytes session)
    | .output block =>
      if block.isEndedBy e then ⟨.ground, e.length, .frame block.frame⟩
      else extend rules block e.length input
    | _ =>
      if e.isRemote then accept rules (e.code.getD 0) e.text e.length
      else ⟨.ground, e.length, .progress⟩

theorem transition_eq_answer (rules : Rules) {state : State} (input : Bytes)
    (greeted : state ≠ .initial) :
    transition rules state input = answer rules state input (scan rules.limits.envelope input) := by
  cases state with
  | initial => exact absurd rfl greeted
  | ground =>
    rw [transition, ground]
    cases scan rules.limits.envelope input <;> rfl
  | body session =>
    rw [transition, body]
    cases scan rules.limits.envelope input <;> rfl
  | output block =>
    rw [transition, output]
    cases scan rules.limits.envelope input <;> rfl

theorem answer_accounts (rules : Rules) {state : State} {input : Bytes} {found : Scan}
    (within : found.Within input.length) (greeted : state ≠ .initial) (some : 0 < input.length) :
    (answer rules state input found).Accounts state input.length := by
  cases found with
  | incomplete => exact rfl
  | tooLarge => exact ⟨some, Nat.le_refl _, rfl⟩
  | other length =>
    cases state with
    | initial => exact absurd rfl greeted
    | ground => exact ⟨within.1, within.2, greeted⟩
    | body session => exact ⟨within.1, within.2, rfl⟩
    | output block => exact extend_accounts rules block input _ within.1 within.2
  | envelope e =>
    cases state with
    | initial => exact absurd rfl greeted
    | ground =>
      simp only [answer]
      split
      · exact accept_accounts rules _ _ _ within.1 within.2
      · exact ⟨within.1, within.2, greeted⟩
    | body session =>
      simp only [answer]
      split
      · split
        · exact ⟨within.1, within.2, by simp⟩
        · exact ⟨within.1, within.2, greeted⟩
      · exact ⟨within.1, within.2, rfl⟩
    | output block =>
      simp only [answer]
      split
      · exact ⟨within.1, within.2, by simp⟩
      · exact extend_accounts rules block input _ within.1 within.2

/-- A step is blocked and changes nothing, or takes a byte at least and none
behind the input. -/
theorem transition_accounts (rules : Rules) (state : State) (input : Bytes) :
    (transition rules state input).Accounts state input.length := by
  by_cases initial : state = .initial
  · subst initial
    exact greet_accounts rules input
  · rw [transition_eq_answer rules input initial]
    cases input with
    | nil => exact rfl
    | cons b rest => exact answer_accounts rules (scan_within _ _) initial (Nat.succ_pos _)

theorem transition_nil (rules : Rules) (state : State) :
    transition rules state [] = .blocked state := by
  have accounts := transition_accounts rules state []
  unfold Step.Accounts at accounts
  rw [List.length_nil] at accounts
  split at accounts
  · exact accounts
  all_goals omega

/-- What a caller notices of a step: how far a violation was looked for is not part of it. -/
def Step.Alike (step later : Step) : Prop :=
  later = step ∨
    ∃ v, v ≠ .requested ∧ step.event = .detach v ∧ later.event = .detach v

theorem greet_append (rules : Rules) {input : Bytes} (more : Bytes)
    (fits : GreetingFits rules.limits.envelope (input ++ more))
    (decided : (greet rules input).event ≠ .blocked) :
    (greet rules input).Alike (greet rules (input ++ more)) := by
  unfold greet at decided ⊢
  rw [lengthBefore_eq, Nat.zero_add] at decided ⊢
  rw [lengthBefore_eq, Nat.zero_add]
  dsimp only at decided ⊢
  by_cases ended : (input.takeWhile (· ≠ 10)).length = input.length
  · -- A line that was too long without its end is no shorter with it.
    rw [if_pos ended] at decided ⊢
    by_cases long : rules.limits.envelope < (input.takeWhile (· ≠ 10)).length
    · rw [if_pos long]
      have whole := (List.takeWhile_prefix (· ≠ 10) (l := input)).eq_of_length ended
      have longer : (input.takeWhile (· ≠ 10)).length
          ≤ ((input ++ more).takeWhile (· ≠ 10)).length := by
        rw [List.takeWhile_append, if_pos ended, whole, List.length_append]
        omega
      have open' : ((input ++ more).takeWhile (· ≠ 10)).length = (input ++ more).length := by
        by_cases ended' : ((input ++ more).takeWhile (· ≠ 10)).length = (input ++ more).length
        · exact ended'
        · have short := fits.length_takeWhile_le ended'
          omega
      rw [if_pos open', if_pos (by omega)]
      exact .inr ⟨_, by simp, rfl, rfl⟩
    · rw [if_neg long] at decided
      exact absurd rfl decided
  · have same : (input ++ more).takeWhile (· ≠ 10) = input.takeWhile (· ≠ 10) := by
      rw [List.takeWhile_append, if_neg ended]
    have short := (List.takeWhile_prefix (· ≠ 10) (l := input)).length_le
    rw [if_neg ended, same, if_neg (by rw [List.length_append]; omega),
      List.take_append_of_le_length short]
    exact .inl rfl

theorem extend_append (rules : Rules) (block : OutputBlock) {n : Nat} {input : Bytes}
    (more : Bytes) (inside : n ≤ input.length) :
    extend rules block n (input ++ more) = extend rules block n input := by
  simp only [extend, pushFront_eq, List.take_append_of_le_length inside]

theorem answer_append (rules : Rules) (state : State) {input : Bytes} {found : Scan}
    (more : Bytes) (within : found.Within input.length) :
    (answer rules state input found).Alike (answer rules state (input ++ more) found) := by
  cases found with
  | incomplete => exact .inl rfl
  | tooLarge => exact .inr ⟨_, by simp, rfl, rfl⟩
  | other length =>
    left
    cases state with
    | output block => exact extend_append rules block more within.2
    | initial | ground | body => rfl
  | envelope e =>
    left
    cases state with
    | output block => simp only [answer, extend_append rules block more within.2]
    | initial | ground | body => rfl

theorem transition_plain (rules : Rules) {state : State} {plain : Bytes} (more : Bytes)
    (greeted : state ≠ .initial) (some : plain ≠ []) (text : esc ∉ plain) :
    transition rules state (plain ++ more) =
      answer rules state (plain ++ more)
        (.other (plain.length + (more.takeWhile (· ≠ esc)).length)) := by
  rw [transition_eq_answer rules _ greeted, scan_plain _ more some text]

theorem transition_plain_alone (rules : Rules) {state : State} {plain : Bytes}
    (greeted : state ≠ .initial) (some : plain ≠ []) (text : esc ∉ plain) :
    transition rules state plain = answer rules state plain (.other plain.length) := by
  simpa using transition_plain rules [] greeted some text

theorem transition_plain_append (rules : Rules) {state : State} {plain : Bytes} (more : Bytes)
    (greeted : state ≠ .initial) (some : plain ≠ []) (text : esc ∉ plain) :
    (transition rules state plain).event = .progress ∨
      (transition rules state plain).Alike (transition rules state (plain ++ more)) := by
  rw [transition_plain rules more greeted some text,
    transition_plain_alone rules greeted some text]
  cases state with
  | initial => exact absurd rfl greeted
  | ground => exact .inl rfl
  | body session => exact .inr (.inr ⟨.unexpectedBytes session, by simp, rfl, rfl⟩)
  | output block =>
    by_cases room : block.raw.size + plain.length ≤ rules.limits.output
    · left
      rw [answer, extend, if_neg (Nat.not_lt.mpr room)]
    · right
      right
      refine ⟨.outputTooLarge block.id rules.limits.output, by simp, ?_, ?_⟩
      · rw [answer, extend, if_pos (by omega)]
        rfl
      · rw [answer, extend, if_pos (by omega)]
        rfl

/-- A step behind the greeting that was not blocked is taken again when more bytes
come, unless it was a run of plain bytes that they may go on. -/
theorem transition_append_of_greeted (rules : Rules) {state : State} {input : Bytes}
    (more : Bytes) (greeted : state ≠ .initial) (fits : EndFits rules.limits.envelope input)
    (decided : (transition rules state input).event ≠ .blocked) :
    (transition rules state input).Alike (transition rules state (input ++ more)) ∨
      (transition rules state input).event = .progress ∧ input ≠ [] ∧ esc ∉ input := by
  have complete : scan rules.limits.envelope input ≠ .incomplete := by
    intro incomplete
    rw [transition_eq_answer rules input greeted, incomplete] at decided
    exact decided rfl
  rcases scan_append more fits complete with same | ⟨text, -⟩
  · left
    rw [transition_eq_answer rules _ greeted, transition_eq_answer rules _ greeted, same]
    exact answer_append rules state more (scan_within _ _)
  · have some : input ≠ [] := by
      intro empty
      exact complete (empty ▸ rfl)
    rcases transition_plain_append rules more greeted some text with progress | alike
    · exact .inr ⟨progress, some, text⟩
    · exact .inl alike

theorem transition_append (rules : Rules) {state : State} {input : Bytes} (more : Bytes)
    (fits : Admits rules.limits.envelope state (input ++ more))
    (decided : (transition rules state input).event ≠ .blocked) :
    (transition rules state input).Alike (transition rules state (input ++ more)) ∨
      (transition rules state input).event = .progress ∧
        state ≠ .initial ∧ input ≠ [] ∧ esc ∉ input := by
  by_cases initial : state = .initial
  · subst initial
    exact .inl (greet_append rules more (fits.greeting rfl) decided)
  · have ended := fits.numbers.of_append.endFits
    exact (transition_append_of_greeted rules more initial ended decided).imp_right
      fun plain => ⟨plain.1, initial, plain.2⟩

theorem greet_decides (rules : Rules) (input : Bytes) :
    (greet rules input).event ≠ .progress := by
  unfold greet
  dsimp only
  split
  · split <;> simp [Step.detach, Step.blocked]
  · split <;> simp [Step.detach]

theorem transition_append_of_progress (rules : Rules) {state : State} {input : Bytes}
    (more : Bytes) (fits : EndFits rules.limits.envelope input)
    (progress : (transition rules state input).event = .progress) :
    state ≠ .initial ∧ (transition rules state (input ++ more) = transition rules state input ∨
      input ≠ [] ∧ esc ∉ input) := by
  have greeted : state ≠ .initial := by
    rintro rfl
    exact greet_decides rules input progress
  refine ⟨greeted, ?_⟩
  rcases transition_append_of_greeted rules more greeted fits (by simp [progress])
    with (same | ⟨v, -, event, -⟩) | ⟨-, plain⟩
  · exact .inl same
  · rw [progress] at event
    cases event
  · exact .inr plain

theorem extend_plain (rules : Rules) (block : OutputBlock) {plain : Bytes}
    (room : block.raw.size + plain.length ≤ rules.limits.output) :
    extend rules block plain.length plain =
      ⟨.output { block with raw := block.raw ++ plain }, plain.length, .progress⟩ := by
  rw [extend, if_neg (Nat.not_lt.mpr room), pushFront_eq, List.take_length]

theorem extend_cut (rules : Rules) (block : OutputBlock) (plain more : Bytes) (run : Nat) :
    extend rules block (plain.length + run) (plain ++ more) =
      { extend rules { block with raw := block.raw ++ plain } run more with
        consumed := plain.length
          + (extend rules { block with raw := block.raw ++ plain } run more).consumed } := by
  have joined : block.raw ++ (plain ++ more.take run) = block.raw ++ plain ++ more.take run := by
    apply Array.toList_inj.mp
    simp only [Array.toList_appendList, List.append_assoc]
  simp only [extend, size_appendList, Nat.add_assoc]
  split
  · rfl
  · simp only [pushFront_eq, List.take_length_add_append, joined]

theorem transition_plain_consumed (rules : Rules) {state : State} {plain : Bytes}
    (greeted : state ≠ .initial) (some : plain ≠ []) (text : esc ∉ plain) :
    (transition rules state plain).consumed = plain.length := by
  rw [transition_plain_alone rules greeted some text]
  cases state with
  | output block => simp only [answer, extend]; split <;> rfl
  | initial | ground | body => rfl

theorem transition_whole (rules : Rules) {state : State} {plain more : Bytes}
    (greeted : state ≠ .initial) (some : plain ≠ []) (text : esc ∉ plain)
    (ends : more.takeWhile (· ≠ esc) = []) :
    transition rules state (plain ++ more) = transition rules state plain := by
  rw [transition_plain rules more greeted some text,
    transition_plain_alone rules greeted some text, ends, List.length_nil, Nat.add_zero]
  cases state with
  | output block => exact extend_append rules block more (Nat.le_refl _)
  | initial | ground | body => rfl

theorem transition_cut (rules : Rules) {state : State} {plain more : Bytes}
    (greeted : state ≠ .initial) (some : plain ≠ []) (text : esc ∉ plain)
    (goesOn : more.takeWhile (· ≠ esc) ≠ [])
    (progress : (transition rules state plain).event = .progress) :
    transition rules state (plain ++ more) =
      { transition rules (transition rules state plain).state more with
        consumed := plain.length
          + (transition rules (transition rules state plain).state more).consumed } := by
  have run : scan rules.limits.envelope more = .other (more.takeWhile (· ≠ esc)).length := by
    cases more with
    | nil => exact absurd rfl goesOn
    | cons b rest =>
      have other : b ≠ esc := by
        intro same
        exact goesOn (List.takeWhile_cons_of_neg (by simp [same]))
      rw [scan_text _ rest other, List.takeWhile_cons_of_pos (by simpa using other),
        List.length_cons, Nat.add_comm]
  rw [transition_plain rules more greeted some text]
  rw [transition_plain_alone rules greeted some text] at progress ⊢
  cases state with
  | initial => exact absurd rfl greeted
  | ground => simp only [answer, transition_eq_answer rules more greeted, run]
  | body session => exact absurd progress (by simp [answer, Step.detach])
  | output block =>
    -- The first part has fitted, so the whole fits just when the second part does.
    have room : block.raw.size + plain.length ≤ rules.limits.output := by
      by_cases room : block.raw.size + plain.length ≤ rules.limits.output
      · exact room
      · rw [answer, extend, if_pos (Nat.lt_of_not_le room)] at progress
        cases progress
    have after : answer rules (.output block) plain (.other plain.length) = _ :=
      extend_plain rules block room
    rw [after, transition_eq_answer rules more (by simp), run]
    exact extend_cut rules block plain more _

end Framing

end TerminalFeed
