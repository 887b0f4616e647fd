import TerminalFeed.Decoder
import TerminalFeed.Proofs.Reading

/-!
A stream that comes in chunks is decoded as if it came at once. What makes it
so is that draining before a push changes nothing: the frames found then, and
those found behind the push, are those that the push alone would have led to.
-/

namespace TerminalFeed.Decoder

open Framing

def feed (d : Decoder) : List Bytes → Decoder × List Frame
  | [] => (d, [])
  | chunk :: rest =>
    let (d, frames) := (d.push chunk).drain
    let (d, more) := d.feed rest
    (d, frames ++ more)

/-- Equal up to where the unread bytes stand in the buffer. -/
structure Alike (d e : Decoder) : Prop where
  parser : d.parser = e.parser
  unread : d.unread = e.unread
  checkpoint : d.checkpoint = e.checkpoint
  detachReported : d.detachReported = e.detachReported

theorem Alike.refl (d : Decoder) : Alike d d := ⟨rfl, rfl, rfl, rfl⟩

theorem Alike.trans {c d e : Decoder} (first : Alike c d) (second : Alike d e) : Alike c e :=
  ⟨first.parser.trans second.parser, first.unread.trans second.unread,
    first.checkpoint.trans second.checkpoint, first.detachReported.trans second.detachReported⟩

structure Sound (d : Decoder) : Prop where
  position : d.position ≤ d.buffer.size
  checkpoint : ∀ c, d.checkpoint = some c → c.offset ≤ d.available
  attached : d.detachReported = false → d.parser.violation = none

theorem sound_ofParser {p : Parser} (attached : p.violation = none) : (ofParser p).Sound :=
  ⟨Nat.zero_le _, nofun, fun _ => attached⟩

/-! What a push changes. -/

theorem parser_push (d : Decoder) (data : Bytes) : (d.push data).parser = d.parser := by
  unfold push compact
  split <;> rfl

theorem checkpoint_push (d : Decoder) (data : Bytes) :
    (d.push data).checkpoint = d.checkpoint := by
  unfold push compact
  split <;> rfl

theorem detachReported_push (d : Decoder) (data : Bytes) :
    (d.push data).detachReported = d.detachReported := by
  unfold push compact
  split <;> rfl

theorem position_push {d : Decoder} (data : Bytes) (inside : d.position ≤ d.buffer.size) :
    (d.push data).position ≤ (d.push data).buffer.size := by
  have kept : d.compact.position ≤ d.compact.buffer.size := by
    unfold compact
    split
    · exact Nat.zero_le _
    · exact inside
  have size : (d.push data).buffer.size = d.compact.buffer.size + data.length :=
    size_appendList _ data
  rw [size]
  exact Nat.le_trans kept (Nat.le_add_right _ _)

theorem Sound.push {d : Decoder} (sound : d.Sound) (data : Bytes) : (d.push data).Sound := by
  refine ⟨position_push data sound.position, ?_, ?_⟩
  · intro c kept
    rw [checkpoint_push] at kept
    rw [← length_unread, unread_push d data sound.position, List.length_append, length_unread]
    exact Nat.le_trans (sound.checkpoint c kept) (Nat.le_add_right _ _)
  · intro unreported
    rw [detachReported_push] at unreported
    rw [parser_push]
    exact sound.attached unreported

theorem Alike.push {d e : Decoder} (alike : Alike d e) (soundD : d.Sound) (soundE : e.Sound)
    (data : Bytes) : Alike (d.push data) (e.push data) := by
  refine ⟨?_, ?_, ?_, ?_⟩
  · rw [parser_push, parser_push, alike.parser]
  · rw [unread_push d data soundD.position, unread_push e data soundE.position, alike.unread]
  · rw [checkpoint_push, checkpoint_push, alike.checkpoint]
  · rw [detachReported_push, detachReported_push, alike.detachReported]

theorem push_push_alike {d : Decoder} (sound : d.Sound) (first second : Bytes) :
    Alike ((d.push first).push second) (d.push (first ++ second)) := by
  refine ⟨?_, ?_, ?_, ?_⟩
  · rw [parser_push, parser_push, parser_push]
  · rw [unread_push _ second (sound.push first).position, unread_push d first sound.position,
      unread_push d _ sound.position, List.append_assoc]
  · rw [checkpoint_push, checkpoint_push, checkpoint_push]
  · rw [detachReported_push, detachReported_push, detachReported_push]

/-! What a call changes. -/

theorem resume_eq_read {d : Decoder} (sound : d.Sound) (unreported : d.detachReported = false) :
    d.parser.resume d.unread d.checkpoint =
      d.parser.read d.outset.1 d.outset.2 (d.unread.drop d.outset.2) := by
  rw [Parser.resume_of_attached (sound.attached unreported), length_unread]
  rfl

theorem next_of_reported {d : Decoder} (reported : d.detachReported = true) :
    d.next = (d, none) := by
  rw [next, if_pos reported]

theorem next_eq {d : Decoder} (unreported : d.detachReported = false) :
    d.next = d.accept (d.parser.resume d.unread d.checkpoint) := by
  rw [next, if_neg (by rw [unreported]; simp), advance_eq, resume_ahead]

theorem unread_accept (d : Decoder) (r : Parser.Result) :
    (d.accept r).1.unread = d.unread.drop r.consumed := by
  have fields : (d.accept r).1.buffer = d.buffer ∧
      (d.accept r).1.position = d.position + r.consumed := by
    unfold accept
    dsimp only
    split <;> exact ⟨rfl, rfl⟩
  rw [unread_eq, unread_eq, fields.1, fields.2, List.drop_drop]

theorem parser_accept (d : Decoder) (r : Parser.Result) : (d.accept r).1.parser = r.parser := by
  unfold accept
  dsimp only
  split <;> rfl

theorem accept_alike {d e : Decoder} {r : Parser.Result} (unread : d.unread = e.unread)
    (reported : d.detachReported = e.detachReported) :
    (d.accept r).2 = (e.accept r).2 ∧ Alike (d.accept r).1 (e.accept r).1 := by
  have left : (d.accept r).1.unread = (e.accept r).1.unread := by
    rw [unread_accept, unread_accept, unread]
  unfold accept at left ⊢
  dsimp only at left ⊢
  split at left
  · exact ⟨rfl, rfl, left, rfl, reported⟩
  · exact ⟨rfl, rfl, left, rfl, reported⟩
  · exact ⟨rfl, rfl, left, rfl, rfl⟩

theorem Alike.next {d e : Decoder} (alike : Alike d e) :
    d.next.2 = e.next.2 ∧ Alike d.next.1 e.next.1 := by
  by_cases reported : d.detachReported = true
  · rw [next_of_reported reported,
      next_of_reported (d := e) (alike.detachReported ▸ reported)]
    exact ⟨rfl, alike⟩
  · have unreported := Bool.eq_false_iff.mpr reported
    rw [next_eq unreported, next_eq (d := e) (alike.detachReported ▸ unreported),
      alike.parser, alike.unread, alike.checkpoint]
    exact accept_alike alike.unread alike.detachReported

theorem outset_le (d : Decoder) : d.outset.2 ≤ d.available :=
  Parser.outset_le _ _ _

/-- What one call may do: keep a checkpoint, take a frame off the front, or detach. -/
inductive Advance (d : Decoder) : Decoder × Option Frame → Prop
  | blocked (c : Checkpoint) (inside : c.offset ≤ d.available) :
      Advance d ({ d with checkpoint := some c }, none)
  | frame (f : Frame) (state : State) (n : Nat) (greeted : state ≠ .initial)
      (some : 0 < n) (inside : n ≤ d.available) :
      Advance d ({ d with
        parser := { d.parser with state := state }
        checkpoint := none
        position := d.position + n }, .some f)
  | detach (v : Violation) (n : Nat) (inside : n ≤ d.available) :
      Advance d ({ d with
        parser := { d.parser with state := .ground, violation := .some v }
        checkpoint := none
        position := d.position + n
        detachReported := true }, .some .detach)

def reading (d : Decoder) : Parser.Result :=
  d.parser.read d.outset.1 d.outset.2 (d.unread.drop d.outset.2)

theorem next_eq_reading {d : Decoder} (sound : d.Sound) (unreported : d.detachReported = false) :
    d.next = d.accept d.reading := by
  rw [next_eq unreported, resume_eq_read sound unreported, reading]

theorem reading_accounts (d : Decoder) :
    d.reading.Accounts d.parser d.outset.2 (d.available - d.outset.2) := by
  have accounts := Parser.read_accounts d.parser d.outset.1 d.outset.2 (d.unread.drop d.outset.2)
  rwa [List.length_drop, length_unread] at accounts

theorem next_advances {d : Decoder} (sound : d.Sound) (unreported : d.detachReported = false) :
    Advance d d.next := by
  have accounts := reading_accounts d
  rw [next_eq_reading sound unreported]
  unfold Parser.Result.Accounts at accounts
  rw [Nat.add_sub_cancel' (outset_le d)] at accounts
  generalize d.reading = r at accounts ⊢
  cases outcome : r.outcome with
  | blocked =>
    rw [outcome] at accounts
    obtain ⟨c, same, -, inside⟩ := accounts
    subst same
    exact .blocked c inside
  | frame f =>
    rw [outcome] at accounts
    obtain ⟨ahead, inside, cleared, greeted, same⟩ := accounts
    have step := Advance.frame (d := d) f r.parser.state r.consumed greeted (by omega) inside
    rw [← same, ← cleared] at step
    simpa [accept, outcome] using step
  | detach v =>
    rw [outcome] at accounts
    obtain ⟨reached, inside, same⟩ := accounts
    subst same
    refine .detach v _ ?_
    dsimp only [Parser.detach]
    split
    · exact inside
    · exact Nat.zero_le _

theorem Sound.next {d : Decoder} (sound : d.Sound) : d.next.1.Sound := by
  by_cases reported : d.detachReported = true
  · rw [next_of_reported reported]
    exact sound
  · have unreported := Bool.eq_false_iff.mpr reported
    have position := sound.position
    have step := next_advances sound unreported
    generalize d.next = after at step ⊢
    cases step with
    | blocked c inside =>
      refine ⟨position, ?_, sound.attached⟩
      intro c' same
      cases same
      exact inside
    | frame f state n _ _ inside =>
      refine ⟨?_, by simp, sound.attached⟩
      simp only [available] at inside ⊢
      omega
    | detach v n inside =>
      refine ⟨?_, by simp, by simp⟩
      simp only [available] at inside ⊢
      omega

def Toward (d e : Decoder) : Prop :=
  e.detachReported = true ∨ e.detachReported = false ∧ e.available < d.available

theorem next_toward {d : Decoder} {f : Frame} (sound : d.Sound)
    (found : d.next.2 = some f) : d.detachReported = false ∧ Toward d d.next.1 := by
  by_cases reported : d.detachReported = true
  · rw [next_of_reported reported] at found
    cases found
  · have unreported := Bool.eq_false_iff.mpr reported
    refine ⟨unreported, ?_⟩
    have step := next_advances sound unreported
    generalize d.next = after at step found ⊢
    cases step with
    | blocked => cases found
    | frame f state n _ some inside =>
      refine .inr ⟨unreported, ?_⟩
      simp only [available] at inside ⊢
      omega
    | detach => exact .inl rfl

inductive Drains : Decoder → List Frame → Decoder → Prop
  | done {d e : Decoder} (empty : d.next = (e, none)) : Drains d [] e
  | frame {d e last : Decoder} {f : Frame} {frames : List Frame}
      (found : d.next = (e, some f)) (rest : Drains e frames last) : Drains d (f :: frames) last

theorem Drains.unique {d e last : Decoder} {frames others : List Frame}
    (one : Drains d frames e) (other : Drains d others last) : frames = others ∧ e = last := by
  induction one generalizing others last with
  | done empty =>
    cases other with
    | done empty' => exact ⟨rfl, congrArg Prod.fst (empty.symm.trans empty')⟩
    | frame found' rest' => cases empty.symm.trans found'
  | frame found rest ih =>
    cases other with
    | done empty' => cases found.symm.trans empty'
    | frame found' rest' =>
      cases found.symm.trans found'
      obtain ⟨same, same'⟩ := ih rest'
      exact ⟨congrArg _ same, same'⟩

theorem Drains.of_next_eq {d e last : Decoder} {frames : List Frame} (same : d.next = e.next)
    (drains : Drains d frames last) : Drains e frames last := by
  cases drains with
  | done empty => exact .done (same ▸ empty)
  | frame found rest => exact .frame (same ▸ found) rest

theorem Drains.sound {d last : Decoder} {frames : List Frame} (drains : Drains d frames last)
    (sound : d.Sound) : last.Sound := by
  induction drains with
  | done empty =>
    have after := sound.next
    rwa [empty] at after
  | frame found rest ih =>
    have after := sound.next
    rw [found] at after
    exact ih after

theorem Drains.alike {d e last : Decoder} {frames : List Frame} (drains : Drains d frames last)
    (alike : Alike d e) : ∃ last', Drains e frames last' ∧ Alike last last' := by
  induction drains generalizing e with
  | done empty =>
    obtain ⟨same, after⟩ := alike.next
    rw [empty] at same after
    exact ⟨e.next.1, .done (Prod.ext rfl same.symm), after⟩
  | frame found rest ih =>
    obtain ⟨same, after⟩ := alike.next
    rw [found] at same after
    obtain ⟨last', drains', final⟩ := ih after
    exact ⟨last', .frame (Prod.ext rfl same.symm) drains', final⟩

theorem drains_nextFrames {rounds : Nat} {d : Decoder} (frames : List Frame) (sound : d.Sound)
    (enough : d.detachReported = true ∧ 0 < rounds ∨
      d.detachReported = false ∧ d.available + 1 < rounds) :
    ∃ more, (nextFrames rounds d frames).2 = frames.reverse ++ more ∧
      Drains d more (nextFrames rounds d frames).1 := by
  -- One round for each unread byte, one for the report, and one to find nothing.
  induction rounds generalizing d frames with
  | zero => omega
  | succ rounds ih =>
    rw [nextFrames]
    cases step : d.next with
    | mk e found =>
      cases found with
      | none => exact ⟨[], (List.append_nil _).symm, .done step⟩
      | some f =>
        have after := sound.next
        have toward := next_toward (f := f) sound (by rw [step])
        rw [step] at after toward
        dsimp only at after toward ⊢
        obtain ⟨unreported, toward⟩ := toward
        have left : e.detachReported = true ∧ 0 < rounds ∨
            e.detachReported = false ∧ e.available + 1 < rounds := by
          rcases enough with ⟨reported, -⟩ | ⟨-, enough⟩
          · rw [unreported] at reported
            cases reported
          · rcases toward with reported | ⟨unreported', fewer⟩
            · exact .inl ⟨reported, by omega⟩
            · exact .inr ⟨unreported', by omega⟩
        obtain ⟨more, same, drains⟩ := ih (f :: frames) after left
        refine ⟨f :: more, ?_, .frame step drains⟩
        rw [same, List.reverse_cons, List.append_assoc, List.singleton_append]

theorem drains_drain {d : Decoder} (sound : d.Sound) : Drains d d.drain.2 d.drain.1 := by
  have enough : d.detachReported = true ∧ 0 < d.available + 2 ∨
      d.detachReported = false ∧ d.available + 1 < d.available + 2 := by
    cases d.detachReported
    · exact .inr ⟨rfl, by omega⟩
    · exact .inl ⟨rfl, by omega⟩
  obtain ⟨more, same, drains⟩ := drains_nextFrames [] sound enough
  rw [drain_eq, same]
  exact drains

theorem drain_of_reported {d : Decoder} (reported : d.detachReported = true) :
    d.drain = (d, []) := by
  rw [drain_eq, nextFrames_of_reported reported]
  rfl

theorem feed_of_reported {d : Decoder} (sound : d.Sound) (reported : d.detachReported = true)
    (chunks : List Bytes) :
    (d.feed chunks).2 = [] ∧ (d.feed chunks).1.parser = d.parser ∧
      (d.feed chunks).1.unread = d.unread ++ chunks.flatten := by
  induction chunks generalizing d with
  | nil => exact ⟨rfl, rfl, by simp [feed]⟩
  | cons chunk rest ih =>
    have reported' : (d.push chunk).detachReported = true := by
      rw [detachReported_push, reported]
    obtain ⟨frames, parser, unread⟩ := ih (sound.push chunk) reported'
    rw [feed, drain_of_reported reported']
    refine ⟨frames, parser.trans (parser_push d chunk), ?_⟩
    rw [List.flatten_cons, ← List.append_assoc, ← unread_push d chunk sound.position]
    exact unread

/-! More bytes behind those that are unread. -/

/-- Whether no limit of a number or of the greeting is overrun in the unread
bytes with `more` behind them. -/
structure Fits (d : Decoder) (more : Bytes) : Prop where
  numbers : NumbersFit d.parser.rules.limits.envelope (d.unread ++ more)
  greeting : d.outset.1 = .initial →
    GreetingFits d.parser.rules.limits.envelope (d.unread.drop d.outset.2 ++ more)

theorem Fits.admits {d : Decoder} {more : Bytes} (fits : Fits d more) :
    Admits d.parser.rules.limits.envelope d.outset.1 (d.unread.drop d.outset.2 ++ more) := by
  refine ⟨fits.numbers.of_suffix ?_, fits.greeting⟩
  have start := outset_le d
  rw [← length_unread] at start
  rw [← List.drop_append_of_le_length start]
  exact List.drop_suffix _ _

theorem Fits.of_append {d : Decoder} {first second : Bytes} (fits : Fits d (first ++ second)) :
    Fits d first := by
  constructor
  · have numbers := fits.numbers
    rw [← List.append_assoc] at numbers
    exact numbers.of_append
  · intro initial
    have greeting := fits.greeting initial
    rw [← List.append_assoc] at greeting
    exact greeting.of_append

theorem outset_push {d : Decoder} (sound : d.Sound) (data : Bytes) :
    (d.push data).outset = d.outset := by
  have longer : d.available ≤ (d.push data).available := by
    rw [← length_unread (d.push data), unread_push d data sound.position, List.length_append,
      length_unread]
    exact Nat.le_add_right _ _
  unfold outset Parser.outset
  rw [parser_push, checkpoint_push]
  cases kept : d.checkpoint with
  | none => rfl
  | some c =>
    have inside := sound.checkpoint c kept
    rw [Option.filter_some_pos (by simpa using Nat.le_trans inside longer),
      Option.filter_some_pos (by simpa using inside)]

theorem Fits.push {d : Decoder} {first second : Bytes} (sound : d.Sound)
    (fits : Fits d (first ++ second)) : Fits (d.push first) second := by
  have start := outset_le d
  rw [← length_unread] at start
  constructor
  · rw [parser_push, unread_push d first sound.position, List.append_assoc]
    exact fits.numbers
  · intro initial
    rw [outset_push sound] at initial ⊢
    rw [parser_push, unread_push d first sound.position,
      List.drop_append_of_le_length start, List.append_assoc]
    exact fits.greeting initial

theorem Fits.next {d : Decoder} {f : Frame} {more : Bytes} (sound : d.Sound)
    (fits : Fits d more) (found : d.next.2 = some f) : Fits d.next.1 more := by
  obtain ⟨unreported, -⟩ := next_toward sound found
  have unread : d.next.1.unread = d.unread.drop
      (d.parser.resume d.unread d.checkpoint).consumed := by
    rw [next_eq unreported, unread_accept]
  have shorter : d.next.1.unread ++ more <:+ d.unread ++ more := by
    rw [unread]
    obtain ⟨front, whole⟩ := List.drop_suffix
      (d.parser.resume d.unread d.checkpoint).consumed d.unread
    exact ⟨front, by rw [← List.append_assoc, whole]⟩
  have step := next_advances sound unreported
  generalize d.next = after at step found shorter ⊢
  cases step with
  | blocked => cases found
  | frame f state n greeted _ _ =>
    exact ⟨fits.numbers.of_suffix shorter, fun initial => absurd initial greeted⟩
  | detach v n _ =>
    exact ⟨fits.numbers.of_suffix shorter, nofun⟩

theorem accept_push {d : Decoder} {r : Parser.Result} (sound : d.Sound)
    (after : (d.accept r).1.Sound) (more : Bytes) (inside : r.consumed ≤ d.available) :
    Alike ((d.accept r).1.push more) ((d.push more).accept r).1 := by
  have unread : ((d.accept r).1.push more).unread = ((d.push more).accept r).1.unread := by
    rw [← length_unread] at inside
    rw [unread_push _ more after.position, unread_accept, unread_accept,
      unread_push d more sound.position, List.drop_append_of_le_length inside]
  refine ⟨?_, unread, ?_, ?_⟩
  · rw [parser_push, parser_accept, parser_accept]
  · rw [checkpoint_push]
    unfold accept
    dsimp only
    split <;> rfl
  · rw [detachReported_push]
    unfold accept
    dsimp only
    split
    · exact (detachReported_push d more).symm
    · exact (detachReported_push d more).symm
    · rfl

theorem accept_frame (d e : Decoder) (r : Parser.Result) : (d.accept r).2 = (e.accept r).2 := by
  unfold accept
  dsimp only
  split <;> rfl

theorem accept_checkpoint (d : Decoder) (c : Checkpoint) (more : Bytes) (r : Parser.Result) :
    ({ d with checkpoint := some c }.push more).accept r = (d.push more).accept r := by
  unfold push compact
  dsimp only
  split <;> rfl

theorem resume_push {d : Decoder} (sound : d.Sound) (unreported : d.detachReported = false)
    (more : Bytes) :
    (d.push more).parser.resume (d.push more).unread (d.push more).checkpoint =
      d.parser.read d.outset.1 d.outset.2 (d.unread.drop d.outset.2 ++ more) := by
  have start := outset_le d
  rw [← length_unread] at start
  rw [resume_eq_read (sound.push more) (by rw [detachReported_push, unreported]), parser_push,
    outset_push sound, unread_push d more sound.position,
    List.drop_append_of_le_length start]

theorem outset_kept {d : Decoder} {c : Checkpoint} (inside : c.offset ≤ d.available) :
    ({ d with checkpoint := some c } : Decoder).outset = (c.state, c.offset) := by
  have standing : (some c).filter (fun c => c.offset ≤ d.available) = some c :=
    Option.filter_some_pos (by simpa using inside)
  change d.parser.outset d.available (some c) = _
  rw [Parser.outset, standing]

theorem next_push_kept {d : Decoder} (sound : d.Sound) (unreported : d.detachReported = false)
    {c : Checkpoint} (inside : c.offset ≤ d.available) (more : Bytes) :
    ({ d with checkpoint := some c }.push more).next =
      (d.push more).accept
        (d.parser.read c.state c.offset (d.unread.drop c.offset ++ more)) := by
  have kept : ({ d with checkpoint := some c } : Decoder).Sound :=
    ⟨sound.position, fun _ same => by cases same; exact inside, sound.attached⟩
  have start := outset_kept inside
  have unreported' : ({ d with checkpoint := some c }.push more).detachReported = false := by
    rw [detachReported_push]
    exact unreported
  rw [next_eq unreported', resume_push kept unreported, start, accept_checkpoint]
  rfl

/-- A call says what the same call comes to behind a push: a frame is found
again, and a checkpoint is as good a start as the old one. -/
theorem next_push {d : Decoder} (sound : d.Sound) (unreported : d.detachReported = false)
    {more : Bytes} (fits : Fits d more) :
    (d.next.2 = none → (d.next.1.push more).next = (d.push more).next) ∧
      (∀ f, d.next.2 = some f → (d.push more).next.2 = some f ∧
        Alike (d.next.1.push more) (d.push more).next.1) := by
  have unreported' : (d.push more).detachReported = false := by
    rw [detachReported_push, unreported]
  have accounts := reading_accounts d
  have foretold : d.reading.Foretells d.parser d.outset.1 d.outset.2 _ more :=
    Parser.read_foretells _ _ _ _ more fits.admits
  have after := sound.next
  rw [next_eq unreported', resume_push sound unreported]
  rw [next_eq_reading sound unreported] at after ⊢
  generalize d.reading = r at accounts foretold after ⊢
  unfold Parser.Result.Accounts at accounts
  rw [Nat.add_sub_cancel' (outset_le d)] at accounts
  cases outcome : r.outcome with
  | blocked =>
    rw [outcome] at accounts
    obtain ⟨c, same, -, inside⟩ := accounts
    subst same
    constructor
    · intro _
      obtain ⟨done, left, parts, reached, -, goesOn⟩ := foretold
      have left' : d.unread.drop c.offset = left := by
        rw [reached, ← List.drop_drop, parts, List.drop_left]
      rw [goesOn, ← left']
      exact next_push_kept sound unreported inside more
    · intro f found
      simp [accept, outcome] at found
  | frame f =>
    rw [outcome] at accounts
    obtain ⟨-, inside, cleared, -⟩ := accounts
    unfold Parser.Result.Foretells at foretold
    rw [cleared] at foretold
    rw [foretold]
    constructor
    · intro none
      simp [accept, outcome] at none
    · intro f' found
      refine ⟨?_, accept_push sound after more inside⟩
      rw [← found]
      exact accept_frame _ _ _
  | detach v =>
    rw [outcome] at accounts
    obtain ⟨reached, inside, same⟩ := accounts
    subst same
    change d.parser.read d.outset.1 d.outset.2 _ = _ at foretold
    rw [foretold]
    constructor
    · intro none
      simp [accept, outcome] at none
    · intro f' found
      refine ⟨?_, accept_push sound after more ?_⟩
      · rw [← found]
        exact accept_frame _ _ _
      · dsimp only [Parser.detach]
        split
        · exact inside
        · exact Nat.zero_le _

theorem Drains.push {d e last : Decoder} {frames others : List Frame} {more : Bytes}
    (before : Drains d frames e) (sound : d.Sound) (fits : Fits d more)
    (behind : Drains (e.push more) others last) :
    ∃ last', Drains (d.push more) (frames ++ others) last' ∧ Alike last last' := by
  -- Every frame that was drained before the push is found again behind it. The
  -- call that found none is the one that goes on with `more`.
  induction before with
  | @done d e empty =>
    by_cases reported : d.detachReported = true
    · rw [next_of_reported reported] at empty
      cases empty
      exact ⟨last, behind, .refl last⟩
    · have same := (next_push sound (Bool.eq_false_iff.mpr reported) fits).1
      rw [empty] at same
      exact ⟨last, behind.of_next_eq (same rfl), .refl last⟩
  | @frame d e last' f frames found rest ih =>
    have found' : d.next.2 = some f := by rw [found]
    obtain ⟨unreported, -⟩ := next_toward sound found'
    obtain ⟨again, after⟩ := (next_push sound unreported fits).2 f found'
    have soundE := sound.next
    have fitsE := fits.next sound found'
    rw [found] at soundE fitsE after
    obtain ⟨final, drains, alike⟩ := ih soundE fitsE behind
    obtain ⟨final', drains', alike'⟩ := drains.alike after
    exact ⟨final', .frame (Prod.ext rfl again) drains', alike.trans alike'⟩

theorem Drains.feed {chunks : List Bytes} {d e f : Decoder} {frames : List Frame}
    (drains : Drains d frames f) (alike : Alike e f) (soundD : d.Sound) (soundE : e.Sound)
    (fits : Fits d chunks.flatten) :
    ∃ last, Drains (d.push chunks.flatten) (frames ++ (e.feed chunks).2) last ∧
      Alike (e.feed chunks).1 last := by
  -- `d` has been pushed all that came, `e` has been drained after each chunk.
  -- Where `d` drains to is alike to `e`, and so it stays with one chunk more.
  induction chunks generalizing d e f frames with
  | nil =>
    have idle : Alike d (d.push []) := by
      refine ⟨(parser_push d []).symm, ?_, (checkpoint_push d []).symm,
        (detachReported_push d []).symm⟩
      rw [unread_push d [] soundD.position, List.append_nil]
    obtain ⟨last, drains', alike'⟩ := drains.alike idle
    refine ⟨last, ?_, alike.trans alike'⟩
    rw [Decoder.feed, List.append_nil]
    exact drains'
  | cons chunk rest ih =>
    rw [List.flatten_cons] at fits ⊢
    have soundE' := soundE.push chunk
    have one := drains_drain soundE'
    obtain ⟨g, one', alikeG⟩ := one.alike (alike.push soundE (drains.sound soundD) chunk)
    obtain ⟨h, both, alikeH⟩ := drains.push soundD fits.of_append one'
    obtain ⟨last, all, final⟩ := ih both (alikeG.trans alikeH) (soundD.push chunk)
      (one.sound soundE') (fits.push soundD)
    obtain ⟨last', all', final'⟩ := all.alike (push_push_alike soundD chunk rest.flatten)
    refine ⟨last', ?_, final.trans final'⟩
    rw [Decoder.feed, ← List.append_assoc]
    exact all'

def start (recovering : Bool) (connection : String) (limits : Limits) : Decoder :=
  if recovering then recovery connection limits else new connection limits

theorem start_eq (recovering : Bool) (connection : String) (limits : Limits) :
    ∃ p : Parser, start recovering connection limits = ofParser p ∧ p.violation = none ∧
      p.rules.limits = limits ∧ (p.state = .initial → recovering = false) := by
  cases recovering with
  | false => exact ⟨.new connection limits, rfl, rfl, rfl, fun _ => rfl⟩
  | true => exact ⟨.recovery connection limits, rfl, rfl, rfl, nofun⟩

theorem next_push_nil {p : Parser} (attached : p.violation = none) :
    ((ofParser p).push []).next =
      ({ (ofParser p).push [] with checkpoint := some ⟨p.state, 0⟩ }, none) := by
  have sound := sound_ofParser attached
  rw [next_eq (by rw [detachReported_push]; rfl), resume_push sound rfl]
  have empty : (ofParser p).unread.drop (ofParser p).outset.2 ++ [] = [] := rfl
  rw [empty, Parser.read_nil]
  rfl

/-- However a stream is cut into chunks, decoding it comes to the same as
decoding it in one piece: the frames, where the parser stands, why it has
detached, and the bytes it has left. -/
theorem feed_eq_drain_push (recovering : Bool) (connection : String) (limits : Limits)
    (chunks : List Bytes) (numbers : NumbersFit limits.envelope chunks.flatten)
    (greeting : recovering = false → GreetingFits limits.envelope chunks.flatten) :
    let cut := (start recovering connection limits).feed chunks
    let whole := ((start recovering connection limits).push chunks.flatten).drain
    cut.2 = whole.2 ∧
      cut.1.parser.state = whole.1.parser.state ∧
      cut.1.parser.violation = whole.1.parser.violation ∧
      cut.1.available = whole.1.available ∧
      cut.1.takeRemaining.2 = whole.1.takeRemaining.2 := by
  obtain ⟨p, start, attached, rules, initial⟩ := start_eq recovering connection limits
  dsimp only
  rw [start]
  have sound := sound_ofParser attached
  cases chunks with
  | nil =>
    -- Nothing has been called yet, where the other decoder has been drained.
    have drains := drains_drain (sound.push [])
    obtain ⟨frames, last⟩ := drains.unique (.done (next_push_nil attached))
    rw [List.flatten_nil, frames, last]
    exact ⟨rfl, rfl, rfl, rfl, rfl⟩
  | cons chunk rest =>
    have fits : Fits (ofParser p) (chunk ++ rest.flatten) := by
      constructor
      · change NumbersFit p.rules.limits.envelope ([] ++ (chunk ++ rest.flatten))
        rw [rules]
        exact numbers
      · intro waiting
        change GreetingFits p.rules.limits.envelope ([] ++ (chunk ++ rest.flatten))
        rw [rules]
        exact greeting (initial waiting)
    have first := sound.push chunk
    have drains := drains_drain first
    obtain ⟨last, all, alike⟩ :=
      drains.feed (.refl _) first (drains.sound first) (fits.push sound)
    obtain ⟨last', all', alike'⟩ := all.alike (push_push_alike sound chunk rest.flatten)
    have whole := drains_drain (sound.push (chunk ++ rest.flatten))
    obtain ⟨frames, final⟩ := whole.unique all'
    have same := alike.trans alike'
    rw [List.flatten_cons, frames, final]
    refine ⟨rfl, congrArg Parser.state same.parser, congrArg Parser.violation same.parser, ?_,
      same.unread⟩
    rw [← length_unread, ← length_unread last', ← same.unread]
    rfl

/-- The greeting, the header of a block, an escape in it, a foreign sequence in
it and its end are all cut; a byte is left. -/
theorem feed_block_in_pieces :
    let chunks := ["h", "s\n\x1b]13", "4;%output X 3 1 0\x07\x1b", "\x1b]9", ";\x07\x1b]134;%en",
      "d X\x1b", "\\!"].map fun text => Utf8.encode text.toList
    let cut := (start false "c" ⟨16, 8⟩).feed chunks
    let whole := ((start false "c" ⟨16, 8⟩).push chunks.flatten).drain
    NumbersFit 16 chunks.flatten ∧ GreetingFits 16 chunks.flatten ∧
      cut.2 = [.handshake "hs c", .output 3 1 0 [27, 27, 93, 57, 59, 7]] ∧
      cut.2 = whole.2 ∧
      cut.1.parser.state = whole.1.parser.state ∧
      cut.1.parser.violation = whole.1.parser.violation ∧
      cut.1.available = whole.1.available ∧
      cut.1.takeRemaining.2 = whole.1.takeRemaining.2 :=
  ⟨by decide +kernel, by decide +kernel, by decide +kernel,
    feed_eq_drain_push false "c" ⟨16, 8⟩ _ (by decide +kernel) fun _ => by decide +kernel⟩

end TerminalFeed.Decoder
