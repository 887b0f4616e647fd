import TerminalFeed.Proofs.Chunks

/-!
What lenient rules change: a payload that no rule accepts is passed over, where
the strict rules give the stream up, and nothing else. So a lenient decoder says
what a strict one says, as long as that does not give up for such a payload, and
starts anew behind the envelope of one.
-/

namespace TerminalFeed

namespace Framing

def Step.Refuses (code : UInt16) (text : String) (step : Step) : Prop :=
  step.event = .detach (.unrecognizedPayload code text)

def Step.pardoned (step : Step) : Step :=
  match step.event with
  | .detach (.unrecognizedPayload _ _) => ⟨.ground, step.consumed, .progress⟩
  | _ => step

theorem Step.pardoned_of_not_refuses {step : Step}
    (accepted : ∀ code text, ¬step.Refuses code text) : step.pardoned = step := by
  rw [pardoned]
  split
  · exact absurd ‹_› (accepted _ _)
  · rfl

theorem Step.pardoned_of_refuses {step : Step} {code : UInt16} {text : String}
    (refuses : step.Refuses code text) : step.pardoned = ⟨.ground, step.consumed, .progress⟩ := by
  rw [Refuses] at refuses
  rw [pardoned, refuses]

def Rules.lenientAs (rules : Rules) (lenient : Bool) : Rules := { rules with lenient := lenient }

theorem accept_lenient (rules : Rules) (code : UInt16) (text : String) (length : Nat) :
    accept (rules.lenientAs true) code text length =
      (accept (rules.lenientAs false) code text length).pardoned := by
  unfold accept
  simp only [Rules.lenientAs, if_true, Bool.false_eq_true, if_false]
  repeat' split
  all_goals rfl

def Step.Blames (code : UInt16) (text : String) (length : Nat) (step : Step) : Prop :=
  ∀ code' text', step.Refuses code' text' →
    code' = code ∧ text' = text ∧ step = .detach length (.unrecognizedPayload code text)

theorem accept_blames (rules : Rules) (code : UInt16) (text : String) (length : Nat) :
    (accept rules code text length).Blames code text length := by
  unfold accept
  dsimp only
  repeat' split
  all_goals rintro code' text' ⟨⟩
  exact ⟨rfl, rfl, rfl⟩

theorem greet_not_refuses (rules : Rules) (input : Bytes) (code : UInt16) (text : String) :
    ¬(greet rules input).Refuses code text := by
  unfold greet
  dsimp only
  repeat' split
  all_goals rintro ⟨⟩

theorem extend_not_refuses (rules : Rules) (block : OutputBlock) (length : Nat) (input : Bytes)
    (code : UInt16) (text : String) : ¬(extend rules block length input).Refuses code text := by
  unfold extend
  split
  all_goals rintro ⟨⟩

theorem code_of_isRemote {e : Envelope} (remote : e.isRemote) : e.code = some (e.code.getD 0) := by
  rcases Bool.or_eq_true _ _ ▸ remote with known | known <;> rw [eq_of_beq known] <;> rfl

/-- Only an envelope in the ground state is refused, and the whole of it is. -/
theorem transition_refuses {rules : Rules} {state : State} {input : Bytes} {code : UInt16}
    {text : String} (refuses : (transition rules state input).Refuses code text) :
    state = .ground ∧ ∃ e, scan rules.limits.envelope input = .envelope e ∧ e.code = some code ∧
      e.text = text ∧
      transition rules .ground input = .detach e.length (.unrecognizedPayload code text) := by
  by_cases initial : state = .initial
  · subst initial
    exact absurd refuses (greet_not_refuses rules input code text)
  · rw [transition_eq_answer rules input initial] at refuses
    rw [transition_eq_answer rules input (by simp)]
    generalize found : scan rules.limits.envelope input = scanned at refuses
    cases scanned with
    | incomplete => cases refuses
    | tooLarge => cases refuses
    | other length =>
      cases state with
      | output block => exact absurd refuses (extend_not_refuses _ _ _ _ _ _)
      | initial | ground | body => cases refuses
    | envelope e =>
      cases state with
      | initial => exact absurd rfl initial
      | ground =>
        simp only [answer] at refuses ⊢
        split at refuses
        · rename_i remote
          obtain ⟨rfl, rfl, same⟩ := accept_blames _ _ _ _ _ _ refuses
          rw [if_pos remote]
          exact ⟨trivial, e, rfl, code_of_isRemote remote, rfl, same⟩
        · cases refuses
      | body session =>
        simp only [answer] at refuses
        repeat' split at refuses
        all_goals cases refuses
      | output block =>
        simp only [answer] at refuses
        split at refuses
        · cases refuses
        · exact absurd refuses (extend_not_refuses _ _ _ _ _ _)

theorem transition_lenient (rules : Rules) (state : State) (input : Bytes) :
    transition (rules.lenientAs true) state input =
      (transition (rules.lenientAs false) state input).pardoned := by
  by_cases ground : state = .ground
  · subst ground
    have same : (rules.lenientAs true).limits = (rules.lenientAs false).limits := rfl
    simp only [transition, Framing.ground, same]
    cases scan (rules.lenientAs false).limits.envelope input with
    | incomplete => rfl
    | tooLarge => rfl
    | other length => rfl
    | envelope e =>
      dsimp only
      split
      · exact accept_lenient rules _ _ _
      · rfl
  · rw [Step.pardoned_of_not_refuses fun code text refuses =>
      ground (transition_refuses refuses).1]
    cases state with
    | initial => rfl
    | ground => exact absurd rfl ground
    | body session => rfl
    | output block => rfl

structure Step.Excuses (strict lenient : Step) : Prop where
  differs : lenient ≠ strict ↔ ∃ code text, strict.Refuses code text
  goesOn : ∀ code text, strict.Refuses code text → lenient = ⟨.ground, strict.consumed, .progress⟩

theorem excuses_pardoned (strict : Step) : strict.Excuses strict.pardoned := by
  refine ⟨⟨?_, ?_⟩, fun _ _ => Step.pardoned_of_refuses⟩
  · intro differs
    refine Classical.byContradiction fun accepted => differs ?_
    exact Step.pardoned_of_not_refuses fun code text refuses => accepted ⟨code, text, refuses⟩
  · rintro ⟨code, text, refuses⟩ same
    rw [Step.pardoned_of_refuses refuses] at same
    rw [Step.Refuses, ← same] at refuses
    cases refuses

theorem extend_to_ground (rules : Rules) (block : OutputBlock) (length : Nat) (input : Bytes)
    (after : (extend rules block length input).state = .ground) :
    (extend rules block length input).event ≠ .progress := by
  unfold extend at after ⊢
  split at after
  · rename_i large
    rw [if_pos large]
    simp [Step.detach]
  · cases after

theorem state_of_progress_to_ground {rules : Rules} {state : State} {input : Bytes}
    (progress : (transition rules state input).event = .progress)
    (after : (transition rules state input).state = .ground) : state = .ground := by
  by_cases initial : state = .initial
  · subst initial
    exact absurd progress (greet_decides rules input)
  · rw [transition_eq_answer rules input initial] at progress after
    generalize scan rules.limits.envelope input = scanned at progress after
    cases state with
    | initial => exact absurd rfl initial
    | ground => rfl
    | body session =>
      cases scanned with
      | incomplete | tooLarge | other => cases progress
      | envelope e =>
        simp only [answer] at progress
        repeat' split at progress
        all_goals cases progress
    | output block =>
      cases scanned with
      | incomplete | tooLarge => cases progress
      | other length => exact absurd progress (extend_to_ground rules block length input after)
      | envelope e =>
        simp only [answer] at progress after
        by_cases ended : block.isEndedBy e = true
        · rw [if_pos ended] at progress
          cases progress
        · rw [if_neg ended] at progress after
          exact absurd progress (extend_to_ground rules block e.length input after)

/-- Bytes that are passed over in the ground state, where `behind` comes behind them. -/
inductive Passes (rules : Rules) : Bytes → Bytes → Prop
  | done (behind : Bytes) : Passes rules [] behind
  | step {front more behind : Bytes}
      (passed : transition rules .ground (front ++ (more ++ behind)) =
        ⟨.ground, front.length, .progress⟩)
      (rest : Passes rules more behind) : Passes rules (front ++ more) behind

/-- Where rules give a stream up in the ground state: behind bytes that are passed over, at
an envelope that they refuse. -/
structure GivesUp (rules : Rules) (passed refused behind : Bytes) (code : UInt16)
    (text : String) : Prop where
  passes : Passes rules passed (refused ++ behind)
  envelope : ∃ e, scan rules.limits.envelope (refused ++ behind) = .envelope e ∧
    e.length = refused.length ∧ e.code = some code ∧ e.text = text
  refuses : transition rules .ground (refused ++ behind) =
    .detach refused.length (.unrecognizedPayload code text)

theorem givesUp_of_refuses {rules : Rules} {state : State} {input : Bytes} {code : UInt16}
    {text : String} (refuses : (transition rules state input).Refuses code text) :
    state = .ground ∧ ∃ refused behind, input = refused ++ behind ∧
      GivesUp rules [] refused behind code text := by
  obtain ⟨ground, e, found, known, spelled, step⟩ := transition_refuses refuses
  have inside : e.length ≤ input.length := by
    have within := scan_within rules.limits.envelope input
    rw [found] at within
    exact within.2
  have length : (input.take e.length).length = e.length := List.length_take_of_le inside
  refine ⟨ground, input.take e.length, input.drop e.length, ?_, .done _, ?_, ?_⟩
  · rw [List.take_append_drop]
  · rw [List.take_append_drop]
    exact ⟨e, found, length.symm, known, spelled⟩
  · rw [List.take_append_drop, length]
    exact step

theorem GivesUp.of_drop {rules : Rules} {input passed refused behind : Bytes} {n : Nat}
    {code : UInt16} {text : String} (inside : n ≤ input.length)
    (step : transition rules .ground input = ⟨.ground, n, .progress⟩)
    (left : input.drop n = passed ++ (refused ++ behind))
    (gives : GivesUp rules passed refused behind code text) :
    input = input.take n ++ passed ++ (refused ++ behind) ∧
      GivesUp rules (input.take n ++ passed) refused behind code text := by
  have whole : input.take n ++ (passed ++ (refused ++ behind)) = input := by
    rw [← left, List.take_append_drop]
  refine ⟨by rw [List.append_assoc, whole], .step ?_ gives.passes, gives.envelope, gives.refuses⟩
  rw [whole, List.length_take_of_le inside]
  exact step

end Framing

open Framing

namespace Parser

def relaxed (p : Parser) : Parser := { p with rules := p.rules.lenientAs true }

def Result.relaxed (r : Result) : Result := { r with parser := r.parser.relaxed }

def Result.Refuses (code : UInt16) (text : String) (r : Result) : Prop :=
  r.outcome = .detach (.unrecognizedPayload code text)

variable {p : Parser}

theorem lenientAs_of_strict {rules : Rules} (strict : rules.lenient = false) :
    rules.lenientAs false = rules := by
  rw [Rules.lenientAs, ← strict]

theorem transition_relaxed (strict : p.rules.lenient = false) (state : State) (input : Bytes) :
    transition p.relaxed.rules state input = (transition p.rules state input).pardoned := by
  have same := transition_lenient p.rules state input
  rwa [lenientAs_of_strict strict] at same

theorem conclude_relaxed (p : Parser) (offset : Nat) (rest : Bytes) {step : Step}
    (decided : step.event ≠ .progress) :
    p.relaxed.conclude offset rest step = (p.conclude offset rest step).relaxed := by
  rw [conclude, conclude]
  split
  · exact absurd ‹_› decided
  all_goals rfl

theorem refuses_conclude {offset : Nat} {rest : Bytes} {step : Step} {code : UInt16}
    {text : String} (decided : step.event ≠ .progress) :
    (p.conclude offset rest step).Refuses code text ↔ step.Refuses code text := by
  rw [Result.Refuses, Step.Refuses, conclude]
  cases event : step.event with
  | progress => exact absurd event decided
  | frame | blocked => simp [block]
  | detach v => simp [detach]

theorem read_relaxed (strict : p.rules.lenient = false) (working : State) (offset : Nat)
    (rest : Bytes) (accepted : ∀ code text, ¬(p.read working offset rest).Refuses code text) :
    p.relaxed.read working offset rest = (p.read working offset rest).relaxed := by
  revert accepted
  refine read_induction (p := p) (motive := fun working offset rest r =>
    (∀ code text, ¬r.Refuses code text) → p.relaxed.read working offset rest = r.relaxed)
    ?_ ?_ working offset rest
  · intro working offset rest decided accepted
    have same : transition p.relaxed.rules working rest = transition p.rules working rest := by
      rw [transition_relaxed strict, Step.pardoned_of_not_refuses fun code text refuses =>
        accepted code text ((refuses_conclude decided).mpr refuses)]
    rw [read_eq, same]
    exact conclude_relaxed p offset rest decided
  · intro working offset rest r progress _ later accepted
    have same : transition p.relaxed.rules working rest = transition p.rules working rest := by
      rw [transition_relaxed strict, Step.pardoned, progress]
    rw [read_eq, same, conclude, progress]
    exact later accepted

theorem read_refuses (p : Parser) (working : State) (offset : Nat) (rest : Bytes) {code : UInt16}
    {text : String} (refuses : (p.read working offset rest).Refuses code text) :
    working = .ground ∧ ∃ passed refused behind, rest = passed ++ (refused ++ behind) ∧
      GivesUp p.rules passed refused behind code text := by
  revert refuses
  refine read_induction (p := p) (motive := fun working _ rest r =>
    r.Refuses code text → working = .ground ∧ ∃ passed refused behind,
      rest = passed ++ (refused ++ behind) ∧ GivesUp p.rules passed refused behind code text)
    ?_ ?_ working offset rest
  · intro working offset rest decided refuses
    obtain ⟨ground, refused, behind, whole, gives⟩ :=
      givesUp_of_refuses ((refuses_conclude decided).mp refuses)
    exact ⟨ground, [], refused, behind, whole, gives⟩
  · intro working offset rest r progress _ later refuses
    obtain ⟨after, passed, refused, behind, left, gives⟩ := later refuses
    obtain rfl := state_of_progress_to_ground progress after
    have accounts := transition_accounts p.rules .ground rest
    rw [Step.Accounts, progress] at accounts
    generalize step : transition p.rules .ground rest = taken at progress after accounts left
    obtain ⟨state, n, event⟩ := taken
    dsimp only at progress after accounts left
    subst progress after
    obtain ⟨whole, gives⟩ := gives.of_drop accounts.2.1 step left
    exact ⟨rfl, _, refused, behind, whole, gives⟩

theorem read_passes (strict : p.rules.lenient = false) {passed behind : Bytes}
    (passes : Passes p.rules passed behind) (offset : Nat) :
    p.relaxed.read .ground offset (passed ++ behind) =
      p.relaxed.read .ground (offset + passed.length) behind := by
  induction passes generalizing offset with
  | done => rfl
  | @step front more behind step rest ih =>
    have same : transition p.relaxed.rules .ground (front ++ (more ++ behind)) =
        ⟨.ground, front.length, .progress⟩ := by
      rw [transition_relaxed strict, step]
      rfl
    rw [List.append_assoc, read_eq, same, conclude]
    dsimp only
    rw [List.drop_left, ih, List.length_append, Nat.add_assoc]

/-- Where strict rules give up, lenient ones go on behind the envelope. -/
theorem read_givesUp (strict : p.rules.lenient = false) {passed refused behind : Bytes}
    {code : UInt16} {text : String} (gives : GivesUp p.rules passed refused behind code text)
    (offset : Nat) :
    p.relaxed.read .ground offset (passed ++ (refused ++ behind)) =
      p.relaxed.read .ground (offset + (passed ++ refused).length) behind := by
  have goesOn : transition p.relaxed.rules .ground (refused ++ behind) =
      ⟨.ground, refused.length, .progress⟩ := by
    rw [transition_relaxed strict, gives.refuses]
    rfl
  rw [read_passes strict gives.passes, read_eq, goesOn, conclude]
  dsimp only
  rw [List.drop_left, List.length_append, Nat.add_assoc]

/-- What a parser makes of an input, call by call, until it finds no more: its frames, and
the parser and the bytes that are left. -/
inductive Handles : Parser → Bytes → List Frame → Parser → Bytes → Prop
  | blocked {p : Parser} {input : Bytes} (outcome : (p.handle input).outcome = .blocked) :
      Handles p input [] (p.handle input).parser (input.drop (p.handle input).consumed)
  | frame {p last : Parser} {input left : Bytes} {f : Frame} {frames : List Frame}
      (outcome : (p.handle input).outcome = .frame f)
      (rest : Handles (p.handle input).parser (input.drop (p.handle input).consumed) frames
        last left) : Handles p input (f :: frames) last left
  | detach {p : Parser} {input : Bytes} {v : Violation}
      (outcome : (p.handle input).outcome = .detach v) :
      Handles p input [.detach] (p.handle input).parser (input.drop (p.handle input).consumed)

structure Result.Further (n : Nat) (r later : Result) : Prop where
  parser : later.parser = r.parser
  outcome : later.outcome = r.outcome
  consumed : ∀ f, r.outcome = .frame f → later.consumed = n + r.consumed

theorem read_further (p : Parser) (working : State) (n offset : Nat) (rest : Bytes) :
    (p.read working offset rest).Further n (p.read working (n + offset) rest) := by
  refine read_induction (p := p) (motive := fun working offset rest r =>
    r.Further n (p.read working (n + offset) rest)) ?_ ?_ working offset rest
  · intro working offset rest decided
    rw [read_eq]
    generalize transition p.rules working rest = step at decided ⊢
    rw [conclude, conclude]
    cases event : step.event with
    | progress => exact absurd event decided
    | frame f => exact ⟨rfl, rfl, fun _ _ => Nat.add_assoc _ _ _⟩
    | blocked | detach =>
      refine ⟨rfl, rfl, ?_⟩
      rintro f ⟨⟩
  · intro working offset rest r progress _ later
    rw [read_eq, conclude, progress]
    dsimp only
    rw [Nat.add_assoc]
    exact later

end Parser

namespace Decoder

def relaxed (d : Decoder) : Decoder := { d with parser := d.parser.relaxed }

theorem relaxed_push (d : Decoder) (data : Bytes) :
    (d.push data).relaxed = d.relaxed.push data := by
  unfold push compact relaxed
  dsimp only
  split <;> rfl

structure Ready (d : Decoder) : Prop extends Sound d where
  unreported : d.detachReported = false
  fresh : d.checkpoint = none

theorem unread_push_ofParser (p : Parser) (bytes : Bytes) :
    ((ofParser p).push bytes).unread = bytes :=
  unread_push _ bytes (Nat.le_refl 0)

theorem ready_push_ofParser {p : Parser} (attached : p.violation = none) (data : Bytes) :
    ((ofParser p).push data).Ready :=
  ⟨(sound_ofParser attached).push data, detachReported_push _ data, checkpoint_push _ data⟩

variable {d e last : Decoder} {frames : List Frame}

theorem Ready.relaxed (ready : d.Ready) : d.relaxed.Ready :=
  ⟨⟨ready.position, ready.toSound.checkpoint, ready.attached⟩, ready.unreported, ready.fresh⟩

theorem Ready.reading (ready : d.Ready) :
    d.reading = d.parser.read d.parser.state 0 d.unread := by
  have start : d.outset = (d.parser.state, 0) := by
    rw [outset, ready.fresh]
    rfl
  rw [Decoder.reading, start]
  rfl

theorem Ready.next_eq (ready : d.Ready) : d.next = d.accept d.reading :=
  next_eq_reading ready.toSound ready.unreported

theorem Ready.next_comes (ready : d.Ready) :
    match d.reading.outcome with
    | .blocked => d.next.2 = none
    | .frame f => d.next.2 = some f ∧ d.next.1.Ready ∧ d.next.1.parser.rules = d.parser.rules
    | .detach _ => d.next.2 = some .detach ∧ d.next.1.detachReported = true := by
  have sound := ready.toSound.next
  have accounts := reading_accounts d
  rw [ready.next_eq] at sound ⊢
  generalize d.reading = r at accounts sound ⊢
  rw [Parser.Result.Accounts] at accounts
  unfold accept at sound ⊢
  dsimp only at sound ⊢
  cases outcome : r.outcome with
  | blocked => rfl
  | frame f =>
    rw [outcome] at accounts sound
    obtain ⟨-, -, cleared, -, same⟩ := accounts
    have rules : r.parser.rules = d.parser.rules := by rw [same]
    exact ⟨rfl, ⟨sound, ready.unreported, cleared⟩, rules⟩
  | detach v => exact ⟨rfl, rfl⟩

theorem drains_of_reported (reported : d.detachReported = true) :
    Drains d frames last ↔ frames = [] ∧ last = d := by
  have empty : Drains d [] d := .done (next_of_reported reported)
  constructor
  · exact fun drains => drains.unique empty
  · rintro ⟨rfl, rfl⟩
    exact empty

theorem Ready.drains_iff (ready : d.Ready) :
    Drains d frames last ↔
      match d.reading.outcome with
      | .blocked => frames = [] ∧ last = d.next.1
      | .frame f => ∃ more, frames = f :: more ∧ Drains d.next.1 more last
      | .detach _ => frames = [.detach] ∧ last = d.next.1 := by
  have comes := ready.next_comes
  cases outcome : d.reading.outcome with
  | blocked =>
    rw [outcome] at comes
    have whole : Drains d [] d.next.1 := .done (Prod.ext rfl comes)
    constructor
    · exact fun drains => drains.unique whole
    · rintro ⟨rfl, rfl⟩
      exact whole
  | frame f =>
    rw [outcome] at comes
    have step : d.next = (d.next.1, some f) := Prod.ext rfl comes.1
    constructor
    · intro drains
      cases drains with
      | done empty => cases step.symm.trans empty
      | frame found rest =>
        cases step.symm.trans found
        exact ⟨_, rfl, rest⟩
    · rintro ⟨more, rfl, rest⟩
      exact .frame step rest
  | detach v =>
    rw [outcome] at comes
    have whole : Drains d [.detach] d.next.1 :=
      .frame (Prod.ext rfl comes.1) ((drains_of_reported comes.2).mpr ⟨rfl, rfl⟩)
    constructor
    · exact fun drains => drains.unique whole
    · rintro ⟨rfl, rfl⟩
      exact whole

theorem Ready.reading_eq_handle (ready : d.Ready) : d.reading = d.parser.handle d.unread := by
  rw [ready.reading, Parser.handle_eq_read _ (ready.attached ready.unreported)]

theorem Drains.handles (drains : Drains d frames last) (ready : d.Ready) :
    Parser.Handles d.parser d.unread frames last.parser last.unread := by
  induction drains with
  | @done d last empty =>
    have comes := ready.next_comes
    have same := ready.next_eq
    rw [empty] at comes same
    have next : last = (d.accept d.reading).1 := congrArg Prod.fst same
    cases outcome : d.reading.outcome with
    | blocked =>
      rw [next, parser_accept, unread_accept, ready.reading_eq_handle]
      exact .blocked (ready.reading_eq_handle ▸ outcome)
    | frame f => simp [outcome] at comes
    | detach v => simp [outcome] at comes
  | @frame d e last f frames found rest ih =>
    have comes := ready.next_comes
    have same := ready.next_eq
    rw [found] at comes same
    have next : e = (d.accept d.reading).1 := congrArg Prod.fst same
    have parser : e.parser = (d.parser.handle d.unread).parser := by
      rw [next, parser_accept, ready.reading_eq_handle]
    have left : e.unread = d.unread.drop (d.parser.handle d.unread).consumed := by
      rw [next, unread_accept, ready.reading_eq_handle]
    rw [ready.reading_eq_handle] at comes
    cases outcome : (d.parser.handle d.unread).outcome with
    | blocked => simp [outcome] at comes
    | frame f' =>
      rw [outcome] at comes
      obtain ⟨found, after, -⟩ := comes
      cases found
      exact .frame outcome (parser ▸ left ▸ ih after)
    | detach v =>
      rw [outcome] at comes
      obtain ⟨found, reported⟩ := comes
      cases found
      obtain ⟨rfl, rfl⟩ := (drains_of_reported reported).mp rest
      rw [parser, left]
      exact .detach outcome

theorem Drains.further (drains : Drains d frames last) (readyD : d.Ready) (readyE : e.Ready)
    {n : Nat} (reads : d.reading.Further n e.reading) (left : e.unread.drop n = d.unread) :
    ∃ last', Drains e frames last' ∧ last'.parser = last.parser := by
  obtain ⟨parser, outcome, consumed⟩ := reads
  have parser : e.next.1.parser = d.next.1.parser := by
    rw [readyE.next_eq, readyD.next_eq, parser_accept, parser_accept, parser]
  have comesD := readyD.next_comes
  have comesE := readyE.next_comes
  rw [readyD.drains_iff] at drains
  simp only [readyE.drains_iff]
  rw [outcome] at comesE ⊢
  cases found : d.reading.outcome with
  | blocked =>
    rw [found] at drains
    obtain ⟨rfl, rfl⟩ := drains
    exact ⟨_, ⟨rfl, rfl⟩, parser⟩
  | frame f =>
    rw [found] at drains comesD comesE
    obtain ⟨more, rfl, rest⟩ := drains
    have unread : d.next.1.unread = e.next.1.unread := by
      rw [readyD.next_eq, readyE.next_eq, unread_accept, unread_accept, consumed f found,
        ← List.drop_drop, left]
    have alike : Alike d.next.1 e.next.1 := ⟨parser.symm, unread,
      comesD.2.1.fresh.trans comesE.2.1.fresh.symm,
      comesD.2.1.unreported.trans comesE.2.1.unreported.symm⟩
    obtain ⟨last', rest', same⟩ := rest.alike alike
    exact ⟨last', ⟨more, rfl, rest'⟩, same.parser.symm⟩
  | detach v =>
    rw [found] at drains
    obtain ⟨rfl, rfl⟩ := drains
    exact ⟨_, ⟨rfl, rfl⟩, parser⟩

theorem accept_relaxed (d : Decoder) (r : Parser.Result) :
    d.relaxed.accept r.relaxed = ((d.accept r).1.relaxed, (d.accept r).2) := by
  unfold accept
  dsimp only [Parser.Result.relaxed]
  split <;> rfl

theorem Ready.next_relaxed (ready : d.Ready) (strict : d.parser.rules.lenient = false)
    (accepted : ∀ code text, ¬d.reading.Refuses code text) :
    d.relaxed.next = (d.next.1.relaxed, d.next.2) := by
  have same : d.relaxed.reading = d.reading.relaxed := Parser.read_relaxed strict _ _ _ accepted
  rw [ready.next_eq, ready.relaxed.next_eq, same, accept_relaxed]

theorem Ready.violation_next (ready : d.Ready)
    (accepted : ∀ code text, ¬d.reading.Refuses code text) (code : UInt16) (text : String) :
    d.next.1.parser.violation ≠ some (.unrecognizedPayload code text) := by
  have accounts := reading_accounts d
  have attached := ready.attached ready.unreported
  rw [ready.next_eq, parser_accept]
  generalize d.reading = r at accepted accounts ⊢
  rw [Parser.Result.Accounts] at accounts
  intro told
  cases outcome : r.outcome with
  | blocked =>
    rw [outcome] at accounts
    obtain ⟨c, rfl, -, -⟩ := accounts
    cases attached.symm.trans told
  | frame f =>
    rw [outcome] at accounts
    obtain ⟨-, -, -, -, same⟩ := accounts
    rw [same] at told
    cases attached.symm.trans told
  | detach v =>
    rw [outcome] at accounts
    obtain ⟨reached, -, rfl⟩ := accounts
    cases told
    exact accepted code text rfl

theorem Ready.next_of_refuses (ready : d.Ready) {code : UInt16} {text : String}
    (refuses : d.reading.Refuses code text) :
    d.next.2 = some .detach ∧ d.next.1.detachReported = true ∧
      d.next.1.parser.violation = some (.unrecognizedPayload code text) ∧
      d.next.1.unread = d.unread := by
  have accounts := reading_accounts d
  rw [ready.next_eq, parser_accept, unread_accept]
  generalize d.reading = r at refuses accounts ⊢
  rw [Parser.Result.Refuses] at refuses
  rw [Parser.Result.Accounts, refuses] at accounts
  obtain ⟨reached, -, rfl⟩ := accounts
  exact ⟨rfl, rfl, rfl, rfl⟩

/-- How a decoder with strict rules has come to an envelope that it refuses, and stopped
there: one with lenient rules has found the same frames up to there. -/
structure Stops (d : Decoder) (before : List Frame) (e last : Decoder) (code : UInt16)
    (text : String) : Prop where
  ready : e.Ready
  rules : e.parser.rules = d.parser.rules
  suffix : e.unread <:+ d.unread
  refuses : e.reading.Refuses code text
  stopped : e.next = (last, some .detach)
  follows : ∀ others final, Drains e.relaxed others final →
    Drains d.relaxed (before ++ others) final

theorem stops_of_refuses (ready : d.Ready) {code : UInt16} {text : String}
    (refuses : d.reading.Refuses code text) : Stops d [] d d.next.1 code text := by
  obtain ⟨found, -⟩ := ready.next_of_refuses refuses
  exact ⟨ready, rfl, List.suffix_refl _, refuses, Prod.ext rfl found, fun _ _ drains => drains⟩

theorem Stops.of_next {d' : Decoder} {f : Frame} {before : List Frame} {code : UInt16}
    {text : String} (stops : Stops d' before e last code text) (ready : d.Ready)
    (found : d.next = (d', some f)) (relaxed : d.relaxed.next = (d'.relaxed, some f))
    (rules : d'.parser.rules = d.parser.rules) : Stops d (f :: before) e last code text := by
  have shorter : d'.unread <:+ d.unread := by
    have unread := unread_accept d d.reading
    rw [← ready.next_eq, found] at unread
    rw [unread]
    exact List.drop_suffix _ _
  exact ⟨stops.ready, stops.rules.trans rules, stops.suffix.trans shorter, stops.refuses,
    stops.stopped, fun others final drains => .frame relaxed (stops.follows others final drains)⟩

theorem Drains.relaxed (drains : Drains d frames last) (ready : d.Ready)
    (strict : d.parser.rules.lenient = false) :
    Drains d.relaxed frames last.relaxed ∧
        (∀ code text, last.parser.violation ≠ some (.unrecognizedPayload code text)) ∨
      ∃ before e code text, frames = before ++ [.detach] ∧ Stops d before e last code text := by
  -- A call that refuses is the last one, so every call before it is one that lenient rules
  -- come to as well.
  induction drains with
  | @done d last empty =>
    have accepted : ∀ code text, ¬d.reading.Refuses code text := by
      intro code text refuses
      have found := (ready.next_of_refuses refuses).1
      rw [empty] at found
      cases found
    have violation := ready.violation_next accepted
    have step := ready.next_relaxed strict accepted
    rw [empty] at violation step
    exact .inl ⟨.done step, violation⟩
  | @frame d e last f frames found rest ih =>
    by_cases refused : ∃ code text, d.reading.Refuses code text
    · obtain ⟨code, text, refuses⟩ := refused
      have stops := stops_of_refuses ready refuses
      obtain ⟨told, reported, -⟩ := ready.next_of_refuses refuses
      rw [found] at stops told reported
      cases told
      obtain ⟨rfl, rfl⟩ := (drains_of_reported reported).mp rest
      exact .inr ⟨[], d, code, text, rfl, stops⟩
    · have accepted := fun code text refuses => refused ⟨code, text, refuses⟩
      have violation := ready.violation_next accepted
      have step := ready.next_relaxed strict accepted
      have comes := ready.next_comes
      rw [found] at violation step comes
      cases outcome : d.reading.outcome with
      | blocked =>
        rw [outcome] at comes
        cases comes
      | frame f' =>
        rw [outcome] at comes
        obtain ⟨-, after, rules⟩ := comes
        rcases ih after (rules ▸ strict) with ⟨more, accepted⟩ | later
        · exact .inl ⟨.frame step more, accepted⟩
        · obtain ⟨before, e', code, text, rfl, stops⟩ := later
          exact .inr ⟨f :: before, e', code, text, rfl, stops.of_next ready found step rules⟩
      | detach v =>
        rw [outcome] at comes
        have reported : e.detachReported = true := comes.2
        obtain ⟨rfl, rfl⟩ := (drains_of_reported reported).mp rest
        have ended : Drains last.relaxed [] last.relaxed :=
          (drains_of_reported (d := last.relaxed) reported).mpr ⟨rfl, rfl⟩
        exact .inl ⟨.frame step ended, violation⟩

/-- A decoder for a connection that was greeted before, with strict rules. -/
def strictRecovery (connection : String) (limits : Limits) : Decoder :=
  ofParser ⟨.ground, ⟨connection, false, limits⟩, none⟩

def readStrict (connection : String) (limits : Limits) (bytes : Bytes) : Decoder × List Frame :=
  ((strictRecovery connection limits).push bytes).drain

def readLenient (connection : String) (limits : Limits) (bytes : Bytes) : Decoder × List Frame :=
  ((recovery connection limits).push bytes).drain

structure Excuses (connection : String) (limits : Limits) (bytes : Bytes)
    (strict lenient : Decoder × List Frame) : Prop where
  -- The strict side is a parser that stands in the ground state, and is called again and again.
  handles : Parser.Handles ⟨.ground, ⟨connection, false, limits⟩, none⟩ bytes strict.2
    strict.1.parser strict.1.takeRemaining.2
  accepted : (∀ code text, strict.1.parser.violation ≠ some (.unrecognizedPayload code text)) →
    lenient.2 = strict.2 ∧ lenient.1.parser.violation = strict.1.parser.violation ∧
      lenient.1.takeRemaining.2 = strict.1.takeRemaining.2
  -- Behind the frames that strict rules have found, and the envelope that they refuse,
  -- the stream is read as if it began there.
  refused : ∀ code text, strict.1.parser.violation = some (.unrecognizedPayload code text) →
    ∃ before taken passed refused behind, strict.2 = before ++ [.detach] ∧
      bytes = taken ++ (passed ++ (refused ++ behind)) ∧
      strict.1.takeRemaining.2 = passed ++ (refused ++ behind) ∧
      GivesUp ⟨connection, false, limits⟩ passed refused behind code text ∧
      lenient.2 = before ++ (readLenient connection limits behind).2 ∧
      lenient.1.parser.violation = (readLenient connection limits behind).1.parser.violation

theorem drains_readStrict (connection : String) (limits : Limits) (bytes : Bytes) :
    ((strictRecovery connection limits).push bytes).Ready ∧
      Drains ((strictRecovery connection limits).push bytes)
        (readStrict connection limits bytes).2 (readStrict connection limits bytes).1 := by
  have ready := ready_push_ofParser (p := ⟨.ground, ⟨connection, false, limits⟩, none⟩) rfl bytes
  exact ⟨ready, drains_drain ready.toSound⟩

/-- Reading a stream by strict rules is to call a parser in the ground state, again and again. -/
theorem handles_readStrict (connection : String) (limits : Limits) (bytes : Bytes) :
    Parser.Handles ⟨.ground, ⟨connection, false, limits⟩, none⟩ bytes
      (readStrict connection limits bytes).2 (readStrict connection limits bytes).1.parser
      (readStrict connection limits bytes).1.takeRemaining.2 := by
  obtain ⟨ready, drains⟩ := drains_readStrict connection limits bytes
  have handles := drains.handles ready
  have parser : ((strictRecovery connection limits).push bytes).parser =
      ⟨.ground, ⟨connection, false, limits⟩, none⟩ := parser_push _ bytes
  have unread : ((strictRecovery connection limits).push bytes).unread = bytes :=
    unread_push_ofParser _ bytes
  rw [parser, unread] at handles
  exact handles

theorem drains_readLenient (connection : String) (limits : Limits) (bytes : Bytes) :
    ((recovery connection limits).push bytes).Ready ∧
      Drains ((recovery connection limits).push bytes)
        (readLenient connection limits bytes).2 (readLenient connection limits bytes).1 := by
  have ready := ready_push_ofParser (p := .recovery connection limits) rfl bytes
  exact ⟨ready, drains_drain ready.toSound⟩

variable {connection : String} {limits : Limits}

theorem Stops.drains_fresh {before : List Frame} {code : UInt16} {text : String}
    (stops : Stops d before e last code text)
    (rules : d.parser.rules = ⟨connection, false, limits⟩) :
    ∃ passed refused behind, e.unread = passed ++ (refused ++ behind) ∧
      GivesUp ⟨connection, false, limits⟩ passed refused behind code text ∧
      ∃ final, Drains d.relaxed (before ++ (readLenient connection limits behind).2) final ∧
        final.parser = (readLenient connection limits behind).1.parser := by
  have ready := stops.ready
  have rules := stops.rules.trans rules
  obtain ⟨ground, passed, refused, behind, whole, gives⟩ :=
    Parser.read_refuses _ _ _ _ (ready.reading ▸ stops.refuses)
  obtain ⟨fresh, drains⟩ := drains_readLenient connection limits behind
  have unread : ((recovery connection limits).push behind).unread = behind :=
    unread_push_ofParser _ behind
  have parser : ((recovery connection limits).push behind).parser = e.parser.relaxed := by
    rw [parser_push, Parser.relaxed, ground, rules, ready.attached ready.unreported]
    rfl
  have skips : e.relaxed.reading =
      e.parser.relaxed.read .ground ((passed ++ refused).length + 0) behind := by
    have goesOn := Parser.read_givesUp (by rw [rules]) gives 0
    rw [← whole, Nat.add_comm] at goesOn
    rw [ready.relaxed.reading, ← goesOn, ← ground]
    rfl
  have reads : ((recovery connection limits).push behind).reading.Further
      (passed ++ refused).length e.relaxed.reading := by
    have standing : e.parser.relaxed.state = .ground := ground
    rw [fresh.reading, unread, parser, skips, standing]
    exact Parser.read_further e.parser.relaxed .ground _ 0 behind
  have left : e.relaxed.unread.drop (passed ++ refused).length =
      ((recovery connection limits).push behind).unread := by
    change e.unread.drop _ = _
    rw [unread, whole, ← List.append_assoc, List.drop_left]
  obtain ⟨final, drains', same⟩ := drains.further fresh ready.relaxed reads left
  exact ⟨passed, refused, behind, whole, rules ▸ gives, final, stops.follows _ _ drains', same⟩

theorem relaxed_push_strictRecovery (bytes : Bytes) :
    ((strictRecovery connection limits).push bytes).relaxed =
      (recovery connection limits).push bytes :=
  relaxed_push _ bytes

theorem rules_push_strictRecovery (bytes : Bytes) :
    ((strictRecovery connection limits).push bytes).parser.rules = ⟨connection, false, limits⟩ :=
  congrArg Parser.rules (parser_push _ bytes)

theorem Stops.excuses {bytes : Bytes} {before : List Frame} {code : UInt16} {text : String}
    (stops : Stops ((strictRecovery connection limits).push bytes) before e
      (readStrict connection limits bytes).1 code text)
    (frames : (readStrict connection limits bytes).2 = before ++ [.detach]) :
    Excuses connection limits bytes (readStrict connection limits bytes)
      (readLenient connection limits bytes) := by
  obtain ⟨-, -, told, kept⟩ := stops.ready.next_of_refuses stops.refuses
  rw [stops.stopped] at told kept
  obtain ⟨passed, refused, behind, whole, gives, final, drains, parser⟩ :=
    stops.drains_fresh (rules_push_strictRecovery bytes)
  rw [relaxed_push_strictRecovery] at drains
  obtain ⟨frames', last⟩ := (drains_readLenient connection limits bytes).2.unique drains
  have pushed : ((strictRecovery connection limits).push bytes).unread = bytes :=
    unread_push_ofParser _ bytes
  obtain ⟨taken, suffix⟩ := stops.suffix
  rw [whole, pushed] at suffix
  refine ⟨handles_readStrict connection limits bytes,
    fun accepted => absurd told (accepted code text), ?_⟩
  intro code' text' told'
  cases told.symm.trans told'
  exact ⟨before, taken, passed, refused, behind, frames, suffix.symm, kept.trans whole, gives,
    frames', by rw [last, parser]⟩

/-- Lenient rules differ from strict ones in one case: a payload that no rule accepts is
passed over with its envelope, and what comes behind it is read anew. -/
theorem recovery_excuses (connection : String) (limits : Limits) :
    (∀ state input, Step.Excuses (transition ⟨connection, false, limits⟩ state input)
        (transition ⟨connection, true, limits⟩ state input)) ∧
      ∀ bytes, Excuses connection limits bytes (readStrict connection limits bytes)
        (readLenient connection limits bytes) := by
  constructor
  · intro state input
    have same := transition_lenient ⟨connection, false, limits⟩ state input
    rw [Rules.lenientAs, Rules.lenientAs] at same
    rw [same]
    exact excuses_pardoned _
  · intro bytes
    obtain ⟨ready, drains⟩ := drains_readStrict connection limits bytes
    rcases drains.relaxed ready (by rw [rules_push_strictRecovery]) with
      ⟨drains', accepted⟩ | ⟨before, e, code, text, frames, stops⟩
    · rw [relaxed_push_strictRecovery] at drains'
      obtain ⟨frames, last⟩ := (drains_readLenient connection limits bytes).2.unique drains'
      refine ⟨handles_readStrict connection limits bytes, fun _ => ?_,
        fun code text told => absurd told (accepted code text)⟩
      rw [frames, last]
      exact ⟨rfl, rfl, rfl⟩
    · exact stops.excuses frames

/-- A payload that is no command is passed over, and the frame behind it is found. -/
example :
    let bytes := Envelope.encode 134 "what is this" ++ Envelope.encode 134 "%terminate 3 1"
    (readStrict "c" ⟨64, 8⟩ bytes).2 = [.detach] ∧
      (readLenient "c" ⟨64, 8⟩ bytes).2 = [.terminate 3 1] := by
  decide +kernel

end Decoder

end TerminalFeed
