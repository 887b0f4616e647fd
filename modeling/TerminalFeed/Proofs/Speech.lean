import TerminalFeed.Proofs.Chunks

/-!
What a decoder says over its life. However its calls are mixed and whatever its
bytes are, its frames are a greeting, exchanges that are complete, perhaps a
session that is still open, and perhaps a last frame that detaches. Where the
parser stands can be told from them.
-/

namespace TerminalFeed

open Framing

inductive Phrase where
  | session (name : String) (lines : List String) (status : String)
  | output (pid channel depth : Int32) (data : Bytes)
  | terminate (pid exitCode : Int32)
  deriving DecidableEq, Repr

def sessionSoFar (name : String) (lines : List String) : List Frame :=
  .sessionBegin name :: lines.map (.sessionLine name)

def Phrase.frames : Phrase → List Frame
  | .session name lines status => sessionSoFar name lines ++ [.sessionEnd name status]
  | .output pid channel depth data => [.output pid channel depth data]
  | .terminate pid exitCode => [.terminate pid exitCode]

structure Speech where
  greeting : Option String
  phrases : List Phrase
  -- The session that has begun and not ended, with its lines.
  opened : Option (String × List String)
  detached : Bool
  deriving DecidableEq, Repr

namespace Speech

def silence : Speech := ⟨none, [], none, false⟩

def frames (speech : Speech) : List Frame :=
  (speech.greeting.map Frame.handshake).toList
    ++ speech.phrases.flatMap Phrase.frames
    ++ (speech.opened.elim [] fun (name, lines) => sessionSoFar name lines)
    ++ (if speech.detached then [.detach] else [])

/-- A connection that was greeted before is not greeted again; any other is
greeted before anything else is said, unless it is given up at once. -/
def Greets (recovering : Bool) (speech : Speech) : Prop :=
  (recovering = true → speech.greeting = none) ∧
    (recovering = false → speech.greeting = none →
      speech.phrases = [] ∧ speech.opened = none)

def state (recovering : Bool) (speech : Speech) : State :=
  if recovering = false ∧ speech.frames = [] then .initial
  else match speech.opened with
    | some (name, _) => if speech.detached then .ground else .body name
    | none => .ground

variable {recovering : Bool} {speech : Speech}

theorem state_of_frames (said : speech.frames ≠ []) :
    speech.state recovering =
      match speech.opened with
      | some (name, _) => if speech.detached then .ground else .body name
      | none => .ground := by
  rw [state, if_neg (fun empty => said empty.2)]

theorem initial_of_state (attached : speech.detached = false)
    (initial : speech.state recovering = .initial) :
    recovering = false ∧ speech.frames = [] := by
  unfold state at initial
  split at initial
  · assumption
  · rw [attached] at initial
    split at initial <;> cases initial

theorem opened_of_state (greets : speech.Greets recovering) {name : String}
    (body : speech.state recovering = .body name) :
    ∃ lines, speech.opened = some (name, lines) ∧
      (recovering = false → speech.greeting ≠ none) := by
  unfold state at body
  split at body
  · cases body
  split at body
  · rename_i lines open'
    split at body
    · cases body
    cases body
    refine ⟨lines, open', ?_⟩
    intro new ungreeted
    rw [(greets.2 new ungreeted).2] at open'
    cases open'
  · cases body

theorem closed_of_state (attached : speech.detached = false) (greets : speech.Greets recovering)
    (ground : speech.state recovering = .ground) :
    speech.opened = none ∧ (recovering = false → speech.greeting ≠ none) := by
  unfold state at ground
  split at ground
  · cases ground
  · rename_i said
    have closed : speech.opened = none := by
      rw [attached] at ground
      split at ground
      · cases ground
      · assumption
    refine ⟨closed, ?_⟩
    intro new ungreeted
    apply said
    refine ⟨new, ?_⟩
    rw [frames, ungreeted, (greets.2 new ungreeted).1, closed, attached]
    rfl

end Speech

namespace Framing

/-- The state a parser stays committed to while it works. -/
def State.settled : State → State
  | .output _ => .ground
  | state => state

inductive Utters : State → Frame → State → Prop
  | greeting (text : String) : Utters .initial (.handshake text) .ground
  | sessionBegin (name : String) : Utters .ground (.sessionBegin name) (.body name)
  | sessionLine (name text : String) :
      Utters (.body name) (.sessionLine name text) (.body name)
  | sessionEnd (name status : String) : Utters (.body name) (.sessionEnd name status) .ground
  | output (pid channel depth : Int32) (data : Bytes) :
      Utters .ground (.output pid channel depth data) .ground
  | terminate (pid exitCode : Int32) : Utters .ground (.terminate pid exitCode) .ground

end Framing

namespace Speech

variable {recovering : Bool}

theorem settled_state (speech : Speech) :
    (speech.state recovering).settled = speech.state recovering := by
  unfold state
  split
  · rfl
  · split
    · split <;> rfl
    · rfl

theorem complete {greeting : Option String} (phrases : List Phrase) (phrase : Phrase)
    (kept : recovering = true → greeting = none) (greeted : recovering = false → greeting ≠ none) :
    Greets recovering ⟨greeting, phrases ++ [phrase], none, false⟩ ∧
      state recovering ⟨greeting, phrases ++ [phrase], none, false⟩ = .ground := by
  have said : phrase.frames ≠ [] := by cases phrase <;> simp [Phrase.frames, sessionSoFar]
  refine ⟨⟨kept, fun new ungreeted => absurd ungreeted (greeted new)⟩, ?_⟩
  rw [state_of_frames (by simp [frames, said])]

theorem open_body {greeting : Option String} (phrases : List Phrase) (name : String)
    (lines : List String) (kept : recovering = true → greeting = none)
    (greeted : recovering = false → greeting ≠ none) :
    Greets recovering ⟨greeting, phrases, some (name, lines), false⟩ ∧
      state recovering ⟨greeting, phrases, some (name, lines), false⟩ = .body name := by
  refine ⟨⟨kept, fun new ungreeted => absurd ungreeted (greeted new)⟩, ?_⟩
  rw [state_of_frames (by simp [frames, sessionSoFar])]
  rfl

/-- A frame that can be said in the state of a speech goes on with it. -/
theorem exists_utter (speech : Speech) {f : Frame} {next : State}
    (attached : speech.detached = false) (greets : speech.Greets recovering)
    (utters : Utters (speech.state recovering) f next) :
    ∃ later : Speech, later.frames = speech.frames ++ [f] ∧ later.Greets recovering ∧
      later.detached = false ∧ later.state recovering = next := by
  obtain ⟨greeting, phrases, opened, detached⟩ := speech
  subst attached
  generalize stands : Speech.state recovering _ = state at utters
  cases utters with
  | greeting text =>
    obtain ⟨new, empty⟩ := initial_of_state rfl stands
    subst new
    refine ⟨⟨some text, [], none, false⟩, ?_, ⟨nofun, nofun⟩, rfl, rfl⟩
    rw [empty]
    rfl
  | sessionBegin name =>
    obtain ⟨closed, greeted⟩ := closed_of_state rfl greets stands
    subst closed
    obtain ⟨greets', stands'⟩ := open_body phrases name [] greets.1 greeted
    refine ⟨_, ?_, greets', rfl, stands'⟩
    simp [frames, sessionSoFar]
  | sessionLine name text =>
    obtain ⟨lines, rfl, greeted⟩ := opened_of_state greets stands
    obtain ⟨greets', stands'⟩ := open_body phrases name (lines ++ [text]) greets.1 greeted
    refine ⟨_, ?_, greets', rfl, stands'⟩
    simp [frames, sessionSoFar]
  | sessionEnd name status =>
    obtain ⟨lines, rfl, greeted⟩ := opened_of_state greets stands
    obtain ⟨greets', stands'⟩ :=
      complete phrases (.session name lines status) greets.1 greeted
    refine ⟨_, ?_, greets', rfl, stands'⟩
    simp [frames, sessionSoFar, Phrase.frames]
  | output pid channel depth data =>
    obtain ⟨closed, greeted⟩ := closed_of_state rfl greets stands
    subst closed
    obtain ⟨greets', stands'⟩ :=
      complete phrases (.output pid channel depth data) greets.1 greeted
    refine ⟨_, ?_, greets', rfl, stands'⟩
    simp [frames, Phrase.frames]
  | terminate pid exitCode =>
    obtain ⟨closed, greeted⟩ := closed_of_state rfl greets stands
    subst closed
    obtain ⟨greets', stands'⟩ := complete phrases (.terminate pid exitCode) greets.1 greeted
    refine ⟨_, ?_, greets', rfl, stands'⟩
    simp [frames, Phrase.frames]

theorem give_up (speech : Speech) (attached : speech.detached = false)
    (greets : speech.Greets recovering) :
    { speech with detached := true }.frames = speech.frames ++ [.detach] ∧
      { speech with detached := true }.Greets recovering ∧
      { speech with detached := true }.state recovering = .ground := by
  have more : { speech with detached := true }.frames = speech.frames ++ [.detach] := by
    simp [frames, attached]
  refine ⟨more, greets, ?_⟩
  rw [state_of_frames (by simp [more])]
  split <;> rfl

end Speech

namespace Framing

def Step.Says (state : State) (step : Step) : Prop :=
  match step.event with
  | .progress => step.state.settled = state.settled
  | .frame f => Utters state.settled f step.state
  | .blocked | .detach _ => True

theorem greet_says (rules : Rules) (input : Bytes) : (greet rules input).Says .initial := by
  unfold greet
  dsimp only
  split
  · split <;> trivial
  · split
    · trivial
    · exact .greeting _

theorem terminate?_eq_some {words : List (List Char)} {f : Frame}
    (found : terminate? words = some f) : ∃ pid exitCode, f = .terminate pid exitCode := by
  unfold terminate? at found
  split at found
  · simp only [Option.bind_eq_bind, Option.bind_eq_some_iff] at found
    obtain ⟨pid, -, exitCode, -, same⟩ := found
    cases same
    exact ⟨pid, exitCode, rfl⟩
  · cases found

theorem accept_says (rules : Rules) (code : UInt16) (text : String) (length : Nat) :
    (accept rules code text length).Says .ground := by
  unfold accept
  dsimp only
  split
  · split
    · exact .sessionBegin _
    · trivial
  split
  · trivial
  split
  · split <;> trivial
  split
  · split <;> trivial
  split
  · split
    · rename_i f found
      obtain ⟨pid, exitCode, rfl⟩ := terminate?_eq_some found
      exact .terminate pid exitCode
    · trivial
  split
  · trivial
  split <;> trivial

theorem extend_says (rules : Rules) (block : OutputBlock) (length : Nat) (input : Bytes) :
    (extend rules block length input).Says (.output block) := by
  unfold extend
  split <;> trivial

theorem answer_says (rules : Rules) {state : State} (input : Bytes) (found : Scan)
    (greeted : state ≠ .initial) : (answer rules state input found).Says state := by
  cases found with
  | incomplete | tooLarge => trivial
  | other length =>
    cases state with
    | initial => exact absurd rfl greeted
    | ground | body => trivial
    | output block => exact extend_says rules block length input
  | envelope e =>
    cases state with
    | initial => exact absurd rfl greeted
    | ground =>
      simp only [answer]
      split
      · exact accept_says rules _ _ _
      · exact rfl
    | body session =>
      simp only [answer]
      split
      · split
        · exact .sessionEnd _ _
        · exact .sessionLine _ _
      · trivial
    | output block =>
      simp only [answer]
      split
      · exact .output _ _ _ _
      · exact extend_says rules block e.length input

theorem transition_says (rules : Rules) (state : State) (input : Bytes) :
    (transition rules state input).Says state := by
  by_cases initial : state = .initial
  · subst initial
    exact greet_says rules input
  · rw [transition_eq_answer rules input initial]
    exact answer_says rules input _ initial

end Framing

namespace Parser

def Result.Says (working : State) (offset : Nat) (r : Result) : Prop :=
  match r.outcome with
  | .blocked => ∀ c, r.checkpoint = some c →
      c.state.settled = working.settled ∧ (offset < c.offset ∨ c = ⟨working, offset⟩)
  | .frame f => Utters working.settled f r.parser.state
  | .detach _ => True

theorem read_says (p : Parser) (working : State) (offset : Nat) (rest : Bytes) :
    (p.read working offset rest).Says working offset := by
  refine read_induction (p := p) (motive := fun working offset _ r => r.Says working offset)
    ?_ ?_ working offset rest
  · intro working offset rest decided
    have told := transition_says p.rules working rest
    have accounts := transition_accounts p.rules working rest
    generalize transition p.rules working rest = step at told accounts decided ⊢
    rw [Step.Says] at told
    rw [Step.Accounts] at accounts
    rw [conclude]
    cases event : step.event with
    | progress => exact absurd event decided
    | frame f =>
      rw [event] at told
      exact told
    | blocked =>
      rw [event] at accounts
      subst accounts
      rintro c ⟨⟩
      exact ⟨rfl, .inr rfl⟩
    | detach v => trivial
  · intro working offset rest r progress _ later
    have told := transition_says p.rules working rest
    have accounts := transition_accounts p.rules working rest
    rw [Step.Says, progress] at told
    rw [Step.Accounts, progress] at accounts
    unfold Result.Says at later ⊢
    rw [told] at later
    cases outcome : r.outcome with
    | blocked =>
      -- The step took a byte, so the checkpoint lies beyond the start.
      rw [outcome] at later
      intro c kept
      obtain ⟨settled, ahead⟩ := later c kept
      refine ⟨settled, .inl ?_⟩
      rcases ahead with ahead | rfl
      · omega
      · have := accounts.1
        dsimp only
        omega
    | frame f =>
      rw [outcome] at later
      exact later
    | detach v => trivial

end Parser

namespace Decoder

inductive Call where
  | push (data : Bytes)
  | next
  | drain
  | takeRemaining
  deriving DecidableEq, Repr

def call (d : Decoder) : Call → Decoder × List Frame
  | .push data => (d.push data, [])
  | .next =>
    let (d, found) := d.next
    (d, found.toList)
  | .drain => d.drain
  | .takeRemaining => (d.takeRemaining.1, [])

def calls (d : Decoder) : List Call → Decoder × List Frame
  | [] => (d, [])
  | first :: rest =>
    let (d, frames) := d.call first
    let (d, more) := d.calls rest
    (d, frames ++ more)

/-- What every decoder keeps true of its checkpoint: nothing is said on the way to it, and
its state is the parser's own until a byte has been read. -/
structure Paced (d : Decoder) : Prop extends Sound d where
  settled : ∀ c, d.checkpoint = some c → c.state.settled = d.parser.state.settled
  moved : ∀ c, d.checkpoint = some c → 0 < c.offset ∨ c.state = d.parser.state

theorem paced_ofParser {p : Parser} (attached : p.violation = none) : (ofParser p).Paced :=
  ⟨sound_ofParser attached, nofun, nofun⟩

theorem Paced.outset {d : Decoder} (paced : d.Paced) :
    d.outset.1.settled = d.parser.state.settled ∧
      (0 < d.outset.2 ∨ d.outset.1 = d.parser.state) := by
  unfold Decoder.outset Parser.outset
  split
  · exact ⟨rfl, .inr rfl⟩
  · rename_i c kept
    have kept := (Option.filter_eq_some_iff.mp kept).1
    exact ⟨paced.settled c kept, paced.moved c kept⟩

theorem Paced.push {d : Decoder} (paced : d.Paced) (data : Bytes) : (d.push data).Paced := by
  refine ⟨paced.toSound.push data, ?_, ?_⟩
  · intro c kept
    rw [checkpoint_push] at kept
    rw [parser_push]
    exact paced.settled c kept
  · intro c kept
    rw [checkpoint_push] at kept
    rw [parser_push]
    exact paced.moved c kept

theorem Paced.takeRemaining {d : Decoder} (paced : d.Paced) : d.takeRemaining.1.Paced :=
  ⟨⟨Nat.le_refl _, nofun, paced.attached⟩, nofun, nofun⟩

inductive Replies (d : Decoder) : Decoder × Option Frame → Prop
  | silent {e : Decoder} (same : e.parser = d.parser) (unreported : e.detachReported = false) :
      Replies d (e, none)
  | frame {e : Decoder} {f : Frame} (unreported : e.detachReported = false)
      (attached : e.parser.violation = none)
      (utters : Utters d.parser.state.settled f e.parser.state) : Replies d (e, some f)
  | detach {e : Decoder} (reported : e.detachReported = true)
      (detached : e.hasDetached = true) (ground : e.parser.state = .ground) :
      Replies d (e, some .detach)

theorem Paced.next {d : Decoder} (paced : d.Paced) (unreported : d.detachReported = false) :
    d.next.1.Paced ∧ Replies d d.next := by
  have sound := paced.toSound.next
  obtain ⟨settled, moved⟩ := paced.outset
  have accounts := reading_accounts d
  have told : d.reading.Says d.outset.1 d.outset.2 := Parser.read_says _ _ _ _
  rw [next_eq_reading paced.toSound unreported] at sound ⊢
  generalize d.reading = r at accounts told sound ⊢
  unfold Parser.Result.Accounts at accounts
  unfold Parser.Result.Says at told
  cases outcome : r.outcome with
  | blocked =>
    rw [outcome] at accounts told
    obtain ⟨c, same, -⟩ := accounts
    subst same
    obtain ⟨stays, ahead⟩ := told c rfl
    refine ⟨⟨sound, ?_, ?_⟩, .silent rfl unreported⟩
    · rintro c' ⟨⟩
      exact stays.trans settled
    · rintro c' ⟨⟩
      rcases ahead with ahead | rfl
      · exact .inl (Nat.zero_lt_of_lt ahead)
      · exact moved
  | frame f =>
    rw [outcome] at accounts told
    obtain ⟨-, -, cleared, -, same⟩ := accounts
    rw [settled] at told
    simp only [accept, outcome] at sound ⊢
    refine ⟨⟨sound, ?_, ?_⟩, .frame unreported ?_ told⟩
    · intro c kept
      rw [cleared] at kept
      cases kept
    · intro c kept
      rw [cleared] at kept
      cases kept
    · rw [same]
      exact paced.attached unreported
  | detach v =>
    rw [outcome] at accounts
    obtain ⟨reached, -, same⟩ := accounts
    subst same
    refine ⟨⟨sound, ?_, ?_⟩, .detach rfl rfl rfl⟩
    · intro c kept
      cases kept
    · intro c kept
      cases kept

structure Spoken (recovering : Bool) (said : List Frame) (d : Decoder) : Prop
    extends Paced d where
  speech : ∃ speech : Speech, speech.frames = said ∧ speech.Greets recovering ∧
    d.detachReported = speech.detached ∧ d.hasDetached = speech.detached ∧
    d.parser.state = speech.state recovering

theorem spoken_start (recovering : Bool) (connection : String) (limits : Limits) :
    (start recovering connection limits).Spoken recovering [] := by
  cases recovering with
  | false =>
    refine ⟨paced_ofParser rfl, .silence, rfl, ⟨nofun, ?_⟩, rfl, rfl, rfl⟩
    intro _ _
    exact ⟨rfl, rfl⟩
  | true =>
    refine ⟨paced_ofParser rfl, .silence, rfl, ⟨?_, nofun⟩, rfl, rfl, rfl⟩
    intro _
    rfl

variable {recovering : Bool} {said : List Frame} {d : Decoder}

theorem Spoken.push (spoken : d.Spoken recovering said) (data : Bytes) :
    (d.push data).Spoken recovering said := by
  refine ⟨spoken.toPaced.push data, ?_⟩
  rw [hasDetached, parser_push, detachReported_push]
  exact spoken.speech

theorem Spoken.takeRemaining (spoken : d.Spoken recovering said) :
    d.takeRemaining.1.Spoken recovering said :=
  ⟨spoken.toPaced.takeRemaining, spoken.speech⟩

theorem Spoken.next (spoken : d.Spoken recovering said) :
    d.next.1.Spoken recovering (said ++ d.next.2.toList) := by
  obtain ⟨speech, frames, greets, reports, detached, stands⟩ := spoken.speech
  by_cases reported : d.detachReported = true
  · rw [next_of_reported reported, Option.toList_none, List.append_nil]
    exact spoken
  · have unreported := Bool.eq_false_iff.mpr reported
    have attached : speech.detached = false := reports.symm.trans unreported
    obtain ⟨paced, replies⟩ := spoken.toPaced.next unreported
    refine ⟨paced, ?_⟩
    generalize d.next = after at replies ⊢
    cases replies with
    | silent same unreported =>
      -- Only the checkpoint has moved, and `Paced` speaks of that.
      rw [Option.toList_none, List.append_nil, hasDetached, same, unreported]
      exact ⟨speech, frames, greets, attached.symm, detached, stands⟩
    | frame unreported' attached' utters =>
      rw [stands, Speech.settled_state] at utters
      obtain ⟨later, more, greets', attached'', stands'⟩ :=
        speech.exists_utter attached greets utters
      refine ⟨later, ?_, greets', ?_, ?_, stands'.symm⟩
      · rw [more, frames, Option.toList_some]
      · rw [unreported', attached'']
      · rw [hasDetached, Parser.hasDetached, attached', attached'']
        rfl
    | detach reported detached' ground =>
      obtain ⟨more, greets', stands'⟩ := speech.give_up attached greets
      refine ⟨{ speech with detached := true }, ?_, greets', reported, detached', ?_⟩
      · rw [more, frames, Option.toList_some]
      · rw [stands', ground]

theorem Spoken.drains {last : Decoder} {frames : List Frame} (drains : Drains d frames last)
    (spoken : d.Spoken recovering said) : last.Spoken recovering (said ++ frames) := by
  induction drains generalizing said with
  | done empty =>
    have after := spoken.next
    rwa [empty] at after
  | frame found rest ih =>
    have after := spoken.next
    rw [found] at after
    have all := ih after
    rwa [Option.toList_some, List.append_assoc, List.singleton_append] at all

theorem Spoken.call (spoken : d.Spoken recovering said) (call : Call) :
    (d.call call).1.Spoken recovering (said ++ (d.call call).2) := by
  cases call with
  | push data =>
    rw [Decoder.call, List.append_nil]
    exact spoken.push data
  | next => exact spoken.next
  | drain => exact Spoken.drains (drains_drain spoken.toSound) spoken
  | takeRemaining =>
    rw [Decoder.call, List.append_nil]
    exact spoken.takeRemaining

theorem Spoken.calls (spoken : d.Spoken recovering said) (calls : List Call) :
    (d.calls calls).1.Spoken recovering (said ++ (d.calls calls).2) := by
  -- What was said before the calls grows with each of them.
  induction calls generalizing d said with
  | nil =>
    rw [Decoder.calls, List.append_nil]
    exact spoken
  | cons first rest ih =>
    rw [Decoder.calls, ← List.append_assoc]
    exact ih (spoken.call first)

/-- Whatever a decoder is offered and whatever it is asked in between, what it has
said is speech, and tells whether it has detached and where its parser stands. -/
theorem calls_speak (recovering : Bool) (connection : String) (limits : Limits)
    (calls : List Call) :
    let (d, frames) := (start recovering connection limits).calls calls
    ∃ speech : Speech, speech.frames = frames ∧ speech.Greets recovering ∧
      d.hasDetached = speech.detached ∧ d.parser.state = speech.state recovering := by
  obtain ⟨speech, frames, greets, -, detached, stands⟩ :=
    ((spoken_start recovering connection limits).calls calls).speech
  exact ⟨speech, frames, greets, detached, stands⟩

example :
    let bytes (text : String) : Bytes := Utf8.encode text.toList
    let (d, frames) := (start true "c" ⟨16, 8⟩).calls
      [.push (bytes "\x1b]134;begin A\x07\x1b]13"), .next, .push (bytes "4;x\x07 "), .drain,
        .takeRemaining, .drain]
    frames = [.sessionBegin "A", .sessionLine "A" "x", .detach] ∧ d.parser.state = .ground := by
  decide +kernel

end Decoder

end TerminalFeed
