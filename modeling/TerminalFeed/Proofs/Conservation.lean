import TerminalFeed.Proofs.Speech

/-!
No byte is lost in a decoder. What has been pushed is what frames were read from
and what was handed over, in the order in which it came, and then what is still
unread. Compacting the buffer, waiting for more and detaching do not change that.
-/

namespace TerminalFeed

theorem Framing.Utters.ne_detach {state next : State} {f : Frame} (utters : Utters state f next) :
    f ≠ .detach := by
  cases utters <;> simp

namespace Decoder

inductive Release where
  | frame (f : Frame) (segment : Bytes)
  | remaining (bytes : Bytes)
  deriving DecidableEq, Repr

namespace Release

def bytes : Release → Bytes
  | frame _ segment => segment
  | remaining bytes => bytes

def frame? : Release → Option Frame
  | frame f _ => some f
  | remaining _ => none

end Release

def segment (d : Decoder) : Bytes := (d.buffer.extract d.position d.next.1.position).toList

def nextReleases : Nat → Decoder → List Release
  | 0, _ => []
  | rounds + 1, d =>
    match d.next with
    | (_, none) => []
    | (e, some f) => .frame f d.segment :: nextReleases rounds e

def releases (d : Decoder) : Call → List Release
  | .push _ => []
  | .next => nextReleases 1 d
  | .drain => nextReleases (d.available + 2) d
  | .takeRemaining => [.remaining d.takeRemaining.2]

def released (d : Decoder) : List Call → List Release
  | [] => []
  | first :: rest => d.releases first ++ (d.call first).1.released rest

def Call.pushed : Call → Bytes
  | .push data => data
  | .next | .drain | .takeRemaining => []

structure Takes (d e : Decoder) (found : Option Frame) (n : Nat) : Prop where
  buffer : e.buffer = d.buffer
  position : e.position = d.position + n
  inside : n ≤ d.available
  silent : found = none → n = 0
  frame : ∀ f, found = some f → f ≠ .detach → 0 < n
  detach : found = some .detach →
    e.detachReported = true ∧ (e.parser.violation ≠ some .requested → n = 0)

theorem Paced.takes {d : Decoder} (paced : d.Paced) : ∃ n, Takes d d.next.1 d.next.2 n := by
  by_cases reported : d.detachReported = true
  · rw [next_of_reported reported]
    exact ⟨0, rfl, rfl, Nat.zero_le _, fun _ => rfl, by simp, by simp⟩
  · have accounts := reading_accounts d
    have told : d.reading.Says d.outset.1 d.outset.2 := Parser.read_says _ _ _ _
    rw [next_eq_reading paced.toSound (Bool.eq_false_iff.mpr reported)]
    generalize d.reading = r at accounts told ⊢
    unfold Parser.Result.Accounts at accounts
    unfold Parser.Result.Says at told
    rw [Nat.add_sub_cancel' (outset_le d)] at accounts
    cases outcome : r.outcome with
    | blocked =>
      rw [outcome] at accounts
      obtain ⟨c, rfl, -, -⟩ := accounts
      have none : (d.accept (d.parser.block c.state c.offset)).2 = none := rfl
      exact ⟨0, rfl, rfl, Nat.zero_le _, fun _ => rfl, by simp [none], by simp [none]⟩
    | frame f =>
      rw [outcome] at accounts told
      obtain ⟨some, inside, -⟩ := accounts
      simp only [accept, outcome]
      refine ⟨r.consumed, rfl, rfl, inside, by simp, ?_, ?_⟩
      · intro _ _ _
        exact Nat.zero_lt_of_lt some
      · rintro ⟨⟩
        exact absurd rfl told.ne_detach
    | detach v =>
      rw [outcome] at accounts
      obtain ⟨reached, inside, rfl⟩ := accounts
      refine ⟨_, rfl, rfl, ?_, by simp [accept, Parser.detach], ?_, ?_⟩
      · simp only [Parser.detach]
        split
        · exact inside
        · exact Nat.zero_le _
      · rintro _ ⟨⟩ other
        exact absurd rfl other
      · intro _
        refine ⟨rfl, fun unasked => ?_⟩
        simp only [Parser.detach]
        exact if_neg fun asked => unasked (congrArg some asked)

theorem Takes.length_segment {d : Decoder} {n : Nat} (takes : Takes d d.next.1 d.next.2 n) :
    d.segment.length = n := by
  have inside := takes.inside
  rw [available] at inside
  rw [segment, Array.length_toList, Array.size_extract, takes.position]
  omega

theorem Takes.unread {d : Decoder} {n : Nat} (takes : Takes d d.next.1 d.next.2 n) :
    d.unread = d.segment ++ d.next.1.unread := by
  have front : d.segment = d.unread.take n := by
    rw [segment, takes.position, Array.toList_extract, List.extract_eq_take_drop,
      Nat.add_sub_cancel_left, unread_eq]
  have rest : d.next.1.unread = d.unread.drop n := by
    rw [unread_eq, unread_eq, takes.buffer, takes.position, List.drop_drop]
  rw [front, rest, List.take_append_drop]

/-- What a decoder has released of what has been pushed, and what it still keeps of it. -/
structure Conserves (pushed : Bytes) (past : List Release) (d : Decoder) : Prop
    extends Paced d where
  bytes : pushed = past.flatMap Release.bytes ++ d.unread
  frame : ∀ f segment, .frame f segment ∈ past → f ≠ .detach → segment ≠ []
  detach : ∀ segment, .frame .detach segment ∈ past →
    d.detachReported = true ∧ (d.parser.violation ≠ some .requested → segment = [])

variable {pushed : Bytes} {past : List Release} {d : Decoder}

theorem conserves_start (recovering : Bool) (connection : String) (limits : Limits) :
    (start recovering connection limits).Conserves [] [] := by
  refine ⟨(spoken_start recovering connection limits).toPaced, ?_, nofun, nofun⟩
  cases recovering <;> rfl

theorem Conserves.push (conserves : d.Conserves pushed past) (data : Bytes) :
    (d.push data).Conserves (pushed ++ data) past := by
  refine ⟨conserves.toPaced.push data, ?_, conserves.frame, ?_⟩
  · rw [unread_push d data conserves.position, ← List.append_assoc, ← conserves.bytes]
  · rw [detachReported_push, parser_push]
    exact conserves.detach

theorem Conserves.takeRemaining (conserves : d.Conserves pushed past) :
    d.takeRemaining.1.Conserves pushed (past ++ [.remaining d.takeRemaining.2]) := by
  refine ⟨conserves.toPaced.takeRemaining, ?_, ?_, ?_⟩
  · rw [List.flatMap_append, conserves.bytes]
    simp [Release.bytes, Decoder.takeRemaining, unread_eq]
  · intro f segment member
    exact conserves.frame f segment (by simpa using member)
  · intro segment member
    exact conserves.detach segment (by simpa using member)

theorem Conserves.next (conserves : d.Conserves pushed past) :
    d.next.1.Conserves pushed
      (past ++ (d.next.2.map fun f => Release.frame f d.segment).toList) := by
  by_cases reported : d.detachReported = true
  · rw [next_of_reported reported]
    simpa using conserves
  · obtain ⟨n, takes⟩ := conserves.toPaced.takes
    have length := takes.length_segment
    have added {f : Frame} {segment : Bytes}
        (new : .frame f segment ∈ (d.next.2.map fun f => Release.frame f d.segment).toList) :
        d.next.2 = some f ∧ segment = d.segment := by
      obtain ⟨_, found, ⟨⟩⟩ := Option.map_eq_some_iff.mp (Option.mem_toList.mp new)
      exact ⟨found, rfl⟩
    constructor
    · exact (conserves.toPaced.next (Bool.eq_false_iff.mpr reported)).1
    · rw [conserves.bytes, takes.unread]
      cases found : d.next.2 with
      | none =>
        have empty := List.eq_nil_of_length_eq_zero (length.trans (takes.silent found))
        simp [empty]
      | some f => simp [Release.bytes]
    · intro f segment member other
      rcases List.mem_append.mp member with old | new
      · exact conserves.frame f segment old other
      · obtain ⟨found, rfl⟩ := added new
        apply List.ne_nil_of_length_pos
        rw [length]
        exact takes.frame f found other
    · intro segment member
      -- A decoder that has told of its detaching finds nothing more, so an old frame
      -- that tells of it leaves no room for this call.
      rcases List.mem_append.mp member with old | new
      · exact absurd (conserves.detach segment old).1 reported
      · obtain ⟨found, rfl⟩ := added new
        obtain ⟨reported', unasked⟩ := takes.detach found
        refine ⟨reported', fun other => ?_⟩
        exact List.eq_nil_of_length_eq_zero (length.trans (unasked other))

theorem Conserves.nextFrames (conserves : d.Conserves pushed past) (rounds : Nat)
    (frames : List Frame) :
    (nextFrames rounds d frames).1.Conserves pushed (past ++ nextReleases rounds d) := by
  induction rounds generalizing d past frames with
  | zero => simpa [Decoder.nextFrames, nextReleases] using conserves
  | succ rounds ih =>
    have after := conserves.next
    rw [Decoder.nextFrames, nextReleases]
    cases step : d.next with
    | mk e found =>
      rw [step] at after
      cases found with
      | none => exact after
      | some f =>
        have rest := ih after (f :: frames)
        rwa [Option.map_some, Option.toList_some, List.append_assoc, List.singleton_append]
          at rest

theorem frames_nextReleases (rounds : Nat) (d : Decoder) (frames : List Frame) :
    (Decoder.nextFrames rounds d frames).2 =
      frames.reverse ++ (nextReleases rounds d).filterMap Release.frame? := by
  induction rounds generalizing d frames with
  | zero => simp [Decoder.nextFrames, nextReleases]
  | succ rounds ih =>
    rw [Decoder.nextFrames, nextReleases]
    cases step : d.next with
    | mk e found =>
      cases found with
      | none => simp
      | some f => simp [ih, Release.frame?]

theorem Conserves.call (conserves : d.Conserves pushed past) (call : Call) :
    (d.call call).1.Conserves (pushed ++ call.pushed) (past ++ d.releases call) := by
  cases call with
  | push data =>
    rw [releases, List.append_nil]
    exact conserves.push data
  | next =>
    have one := conserves.nextFrames 1 []
    rw [Decoder.nextFrames] at one
    rw [Call.pushed, List.append_nil]
    cases step : d.next with
    | mk e found =>
      rw [step] at one
      cases found <;> simpa [Decoder.call, releases, step, Decoder.nextFrames] using one
  | drain =>
    have all := conserves.nextFrames (d.available + 2) []
    rw [← drain_eq] at all
    rw [Call.pushed, List.append_nil]
    exact all
  | takeRemaining =>
    rw [Call.pushed, List.append_nil]
    exact conserves.takeRemaining

theorem frames_releases (d : Decoder) (call : Call) :
    (d.releases call).filterMap Release.frame? = (d.call call).2 := by
  cases call with
  | push | takeRemaining => rfl
  | next =>
    simp only [releases, nextReleases, Decoder.call]
    cases step : d.next with
    | mk e found => cases found <;> simp [Release.frame?]
  | drain => rw [Decoder.call, drain_eq, frames_nextReleases]; rfl

theorem Conserves.calls (conserves : d.Conserves pushed past) (calls : List Call) :
    (d.calls calls).1.Conserves (pushed ++ calls.flatMap Call.pushed)
      (past ++ d.released calls) := by
  induction calls generalizing d pushed past with
  | nil => simpa [Decoder.calls, released] using conserves
  | cons first rest ih =>
    have all := ih (conserves.call first)
    rwa [List.append_assoc, List.append_assoc] at all

theorem frames_released (d : Decoder) (calls : List Call) :
    (d.released calls).filterMap Release.frame? = (d.calls calls).2 := by
  induction calls generalizing d with
  | nil => rfl
  | cons first rest ih =>
    rw [released, List.filterMap_append, frames_releases, ih, Decoder.calls]

/-- Whatever calls are made of a decoder, all that was pushed has come out with the frames
that were returned and with what was handed over, in the order in which it was pushed, or
is unread. Every frame takes a byte at least, but for the last one, which takes none unless
the remote helper has asked to detach. -/
theorem calls_conserve (recovering : Bool) (connection : String) (limits : Limits)
    (calls : List Call) :
    let (d, frames) := (start recovering connection limits).calls calls
    let past := (start recovering connection limits).released calls
    past.filterMap Release.frame? = frames ∧
      calls.flatMap Call.pushed = past.flatMap Release.bytes ++ d.unread ∧
      d.unread.length = d.available ∧
      d.position ≤ d.buffer.size ∧
      (∀ c, d.checkpoint = some c → c.offset ≤ d.available) ∧
      (∀ f segment, .frame f segment ∈ past → f ≠ .detach → segment ≠ []) ∧
      (∀ segment, .frame .detach segment ∈ past →
        d.parser.violation ≠ some .requested → segment = []) := by
  have conserves := (conserves_start recovering connection limits).calls calls
  rw [List.nil_append, List.nil_append] at conserves
  refine ⟨frames_released _ calls, conserves.bytes, length_unread _, conserves.position,
    conserves.checkpoint, conserves.frame, ?_⟩
  intro segment member
  exact (conserves.detach segment member).2

example :
    let bytes (text : String) : Bytes := Utf8.encode text.toList
    (start true "c" ⟨16, 8⟩).released
        [.push (bytes "a\x1b]135;unh"), .next, .push (bytes "ook\x07b"), .drain, .takeRemaining] =
      [.frame .detach (bytes "a\x1b]135;unhook\x07"), .remaining (bytes "b")] := by
  decide +kernel

end Decoder

end TerminalFeed
