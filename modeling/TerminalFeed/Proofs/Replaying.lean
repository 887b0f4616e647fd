import TerminalFeed.Proofs.Conservation
import TerminalFeed.Proofs.Playing

/-!
A replay prints its stream once. Its deliveries hold the frames that its decoder yields, the
urgent ones apart, and then the bytes that the decoder has left; the executor executes them
whole. So however the two take turns, each lane prints its own part of the stream, in order,
and what is counted at the end is what was read.
-/

namespace TerminalFeed

def Frame.isTerminate : Frame → Bool
  | .terminate .. => true
  | _ => false

theorem Lane.beq_normal (lane : Lane) : (lane == .normal) = !(lane == .high) := by
  cases lane <;> rfl

def Token.lane {τ : Type} : Token τ → Lane
  | .frame f => if f.isUrgent then .high else .normal
  | .terminal _ => .normal

theorem isUrgent_sessionSoFar {name : String} {lines : List String} {f : Frame}
    (member : f ∈ sessionSoFar name lines) : f.isUrgent = f.isTerminate := by
  simp only [sessionSoFar, List.mem_cons, List.mem_map] at member
  rcases member with rfl | ⟨text, -, rfl⟩ <;> rfl

theorem Phrase.isUrgent_frames {p : Phrase} {f : Frame} (member : f ∈ p.frames) :
    f.isUrgent = f.isTerminate := by
  cases p with
  | session name lines status =>
    rcases List.mem_append.mp member with inside | last
    · exact isUrgent_sessionSoFar inside
    · rw [List.mem_singleton.mp last]
      rfl
  | output | terminate =>
    rw [List.mem_singleton.mp member]
    rfl

/-- The urgent frames of a speech are its terminations, and at last that it detaches. -/
theorem Speech.filter_isUrgent (speech : Speech) :
    speech.frames.filter Frame.isUrgent =
      speech.frames.filter Frame.isTerminate ++ if speech.detached then [Frame.detach] else [] := by
  have greeting : ∀ f ∈ (speech.greeting.map Frame.handshake).toList,
      f.isUrgent = f.isTerminate := by
    intro f member
    obtain ⟨text, -, rfl⟩ := Option.map_eq_some_iff.mp (Option.mem_toList.mp member)
    rfl
  have phrases : ∀ f ∈ speech.phrases.flatMap Phrase.frames, f.isUrgent = f.isTerminate := by
    intro f member
    obtain ⟨p, -, inside⟩ := List.mem_flatMap.mp member
    exact Phrase.isUrgent_frames inside
  have detach : (if speech.detached then [Frame.detach] else []).filter Frame.isUrgent =
        (if speech.detached then [Frame.detach] else []) ∧
      (if speech.detached then [Frame.detach] else []).filter Frame.isTerminate = [] := by
    cases speech.detached <;> exact ⟨rfl, rfl⟩
  cases opened : speech.opened with
  | none =>
    simp only [frames, opened, Option.elim_none, List.filter_append, List.filter_congr greeting,
      List.filter_congr phrases, detach.1, detach.2, List.append_nil]
  | some begun =>
    have session : ∀ f ∈ sessionSoFar begun.1 begun.2, f.isUrgent = f.isTerminate :=
      fun f => isUrgent_sessionSoFar
    simp only [frames, opened, Option.elim_some, List.filter_append, List.filter_congr greeting,
      List.filter_congr phrases, List.filter_congr session, detach.1, detach.2, List.append_nil]

namespace Decoder

theorem hasDetached_start (recovering : Bool) (connection : String) (limits : Limits) :
    (start recovering connection limits).hasDetached = false := by
  cases recovering <;> rfl

def feedEach (d : Decoder) : List Bytes → List (List Frame)
  | [] => []
  | chunk :: rest =>
    let (d, frames) := (d.push chunk).drain
    frames :: d.feedEach rest

theorem flatten_feedEach (d : Decoder) (chunks : List Bytes) :
    (d.feedEach chunks).flatten = (d.feed chunks).2 := by
  induction chunks generalizing d with
  | nil => rfl
  | cons chunk rest ih => rw [feedEach, feed, List.flatten_cons, ih]

theorem calls_feed (d : Decoder) (chunks : List Bytes) :
    d.calls (chunks.flatMap fun chunk => [.push chunk, .drain]) = d.feed chunks := by
  induction chunks generalizing d with
  | nil => rfl
  | cons chunk rest ih =>
    simp only [List.flatMap_cons, List.cons_append, List.nil_append, calls, call, feed, ih]

theorem pushed_feed (chunks : List Bytes) :
    (chunks.flatMap fun chunk => [Call.push chunk, .drain]).flatMap Call.pushed =
      chunks.flatten := by
  induction chunks with
  | nil => rfl
  | cons chunk rest ih => simp [Call.pushed, ih]

theorem feedEach_of_reported {d : Decoder} (reported : d.detachReported = true)
    (chunks : List Bytes) : d.feedEach chunks = chunks.map fun _ => [] := by
  induction chunks generalizing d with
  | nil => rfl
  | cons chunk rest ih =>
    have reported' : (d.push chunk).detachReported = true := by
      rw [detachReported_push, reported]
    rw [feedEach, drain_of_reported reported', List.map_cons, ← ih reported']

def leftover (d : Decoder) : Bytes := if d.hasDetached then d.unread else []

end Decoder

theorem Decoder.Spoken.detachReported_eq {recovering : Bool} {said : List Frame} {d : Decoder}
    (spoken : d.Spoken recovering said) : d.detachReported = d.hasDetached := by
  obtain ⟨speech, -, -, reported, detached, -⟩ := spoken.speech
  rw [reported, detached]

namespace Replay

open Decoder

/-- What deliveries hold: the frames of the chunks by their urgency, what is passed on behind
the ordinary ones, and the length of the chunks. -/
structure Holds (deliveries : List Delivery) (chunks : List Bytes) (each : List (List Frame))
    (passed : List Bytes) : Prop where
  normal : laneTokens deliveries .normal =
    (each.flatten.filter fun f => !f.isUrgent).map .frame ++ passed.map .terminal
  high : laneTokens deliveries .high = (each.flatten.filter Frame.isUrgent).map .frame
  bytes : (deliveries.map Delivery.byteLength).sum = chunks.flatten.length
  size : deliveries.length = chunks.length + each.countP fun frames => frames.any Frame.isUrgent
  real : (∀ chunk ∈ chunks, chunk ≠ []) → ∀ d ∈ deliveries, d.batch.isNothing = false
  present : (∀ chunk ∈ chunks, chunk ≠ []) → ∀ piece ∈ passed, piece ≠ []

def chunkDeliveries (chunk : Bytes) (frames : List Frame) (left : List Bytes) : List Delivery :=
  ⟨.normal, (frames.filter fun f => !f.isUrgent).map .frame ++ left.map .terminal,
      chunk.length⟩ ::
    if (frames.filter Frame.isUrgent).isEmpty then []
    else [⟨.high, (frames.filter Frame.isUrgent).map .frame, 0⟩]

theorem laneTokens_append (one other : List Delivery) (lane : Lane) :
    laneTokens (one ++ other) lane = laneTokens one lane ++ laneTokens other lane := by
  rw [laneTokens, List.filter_append, List.flatMap_append, laneTokens, laneTokens]

namespace Holds

theorem nil : Holds [] [] [] [] := by
  refine ⟨rfl, rfl, rfl, rfl, ?_, ?_⟩ <;>
  · intro _ _ member
    cases member

theorem chunk {chunk : Bytes} {left : List Bytes}
    (present : chunk ≠ [] → ∀ piece ∈ left, piece ≠ []) (frames : List Frame) :
    Holds (chunkDeliveries chunk frames left) [chunk] [frames] left := by
  have within (all : ∀ piece ∈ [chunk], piece ≠ []) : chunk ≠ [] := all chunk (.head _)
  have length : (⟨.normal, (frames.filter fun f => !f.isUrgent).map .frame ++
      left.map .terminal, chunk.length⟩ : Delivery).batch.byteLength = chunk.length := rfl
  cases urgent : frames.filter Frame.isUrgent with
  | nil =>
    have none : frames.any Frame.isUrgent = false := by
      simpa [List.filter_eq_nil_iff] using urgent
    constructor
    · simp [chunkDeliveries, laneTokens, urgent]
    · simp [chunkDeliveries, laneTokens, urgent]
    · simp [chunkDeliveries, urgent]
    · simp [chunkDeliveries, urgent, none]
    · intro all d member
      simp [chunkDeliveries, urgent] at member
      subst d
      simp [Batch.isNothing, length, within all]
    · exact fun all => present (within all)
  | cons f others =>
    have some : frames.any Frame.isUrgent = true := by
      have member : f ∈ frames.filter Frame.isUrgent := by simp [urgent]
      obtain ⟨inside, calls⟩ := List.mem_filter.mp member
      exact List.any_eq_true.mpr ⟨f, inside, calls⟩
    constructor
    · simp [chunkDeliveries, laneTokens, urgent]
    · simp [chunkDeliveries, laneTokens, urgent]
    · simp [chunkDeliveries, urgent]
    · simp [chunkDeliveries, urgent, some]
    · intro all d member
      simp [chunkDeliveries, urgent] at member
      rcases member with rfl | rfl
      · simp [Batch.isNothing, length, within all]
      · simp [Batch.isNothing, Batch.isEmpty, Delivery.batch]
    · exact fun all => present (within all)

variable {one other : List Delivery} {chunks more : List Bytes} {each rest : List (List Frame)}
  {passed later : List Bytes}

theorem append (first : Holds one chunks each passed) (second : Holds other more rest later)
    (last : passed = [] ∨ rest.flatten = []) :
    Holds (one ++ other) (chunks ++ more) (each ++ rest) (passed ++ later) := by
  constructor
  · rw [laneTokens_append, first.normal, second.normal]
    rcases last with none | none <;> simp [none]
  · rw [laneTokens_append, first.high, second.high]
    simp
  · rw [List.map_append, List.sum_append, first.bytes, second.bytes]
    simp
  · rw [List.length_append, first.size, second.size, List.length_append, List.countP_append]
    omega
  · intro all d member
    obtain ⟨ahead, behind⟩ := List.forall_mem_append.mp all
    rcases List.mem_append.mp member with inside | later
    · exact first.real ahead d inside
    · exact second.real behind d later
  · intro all
    obtain ⟨ahead, behind⟩ := List.forall_mem_append.mp all
    exact List.forall_mem_append.mpr ⟨first.present ahead, second.present behind⟩

end Holds

namespace Progress

theorem holds_of_detached (d : Decoder) (n : Nat) (found : Nat × Violation)
    (chunks : List Bytes) :
    Holds (readAll ⟨d, n, some found⟩ chunks).2 chunks (chunks.map fun _ => []) chunks := by
  induction chunks generalizing n with
  | nil => exact .nil
  | cons chunk rest ih =>
    have first : Holds (chunkDeliveries chunk [] [chunk]) [chunk] [[]] [chunk] :=
      .chunk (fun some => by simpa using some) []
    exact first.append (ih (n + 1)) (.inr (by simp))

theorem detached_readAll (d : Decoder) (n : Nat) (found : Nat × Violation) (chunks : List Bytes) :
    (readAll ⟨d, n, some found⟩ chunks).1.detached = some found := by
  induction chunks generalizing n with
  | nil => rfl
  | cons chunk rest ih => exact ih (n + 1)

theorem chunks_passOn (p : Progress) : p.passOn.1.chunks = p.chunks := by
  unfold passOn
  split <;> rfl

theorem chunks_read (p : Progress) (chunk : Bytes) : (p.read chunk).1.chunks = p.chunks + 1 := by
  cases detached : p.detached with
  | some found => simp [read, detached]
  | none => simp [read, detached, chunks_passOn]

theorem chunks_readAll (p : Progress) (chunks : List Bytes) :
    (p.readAll chunks).1.chunks = p.chunks + chunks.length := by
  induction chunks generalizing p with
  | nil => rfl
  | cons chunk rest ih =>
    simp only [readAll, ih, chunks_read, List.length_cons]
    omega

theorem read_of_attached {d e : Decoder} {chunk : Bytes} {frames : List Frame}
    (drained : (d.push chunk).drain = (e, frames)) (attached : e.parser.violation = none)
    (n : Nat) : read ⟨d, n, none⟩ chunk = (⟨e, n + 1, none⟩, chunkDeliveries chunk frames []) := by
  simp only [read, drained, passOn, attached, List.partition_eq_filter_filter, chunkDeliveries,
    List.map_nil]
  rfl

theorem read_of_detaching {d e : Decoder} {chunk : Bytes} {frames : List Frame} {v : Violation}
    (drained : (d.push chunk).drain = (e, frames)) (violation : e.parser.violation = some v)
    (n : Nat) :
    read ⟨d, n, none⟩ chunk = (⟨e.takeRemaining.1, n + 1, some (n, v)⟩,
      chunkDeliveries chunk frames (if e.unread.isEmpty then [] else [e.unread])) := by
  simp only [read, drained, passOn, violation, List.partition_eq_filter_filter, chunkDeliveries,
    takeRemaining]
  cases e.unread <;> rfl

/-- The deliveries of a decoder that is attached hold what it yields and what it leaves. -/
theorem holds_readAll {recovering : Bool} {said : List Frame} {d : Decoder}
    (spoken : d.Spoken recovering said) (attached : d.hasDetached = false) (n : Nat)
    (chunks : List Bytes) :
    ∃ passed, Holds (readAll ⟨d, n, none⟩ chunks).2 chunks (d.feedEach chunks) passed ∧
      passed.flatten = (d.feed chunks).1.leftover ∧
      (readAll ⟨d, n, none⟩ chunks).1.detached.map Prod.snd =
        (d.feed chunks).1.parser.violation := by
  induction chunks generalizing d n said with
  | nil =>
    have sound : d.parser.violation = none := by
      simpa [hasDetached, Parser.hasDetached] using attached
    exact ⟨[], .nil, by simp [feed, leftover, attached], sound.symm⟩
  | cons chunk rest ih =>
    have drained := (spoken.push chunk).drains (drains_drain (spoken.push chunk).toSound)
    cases drain : (d.push chunk).drain with
    | mk e frames =>
      rw [drain] at drained
      simp only [readAll, feedEach, feed, drain]
      cases violation : e.parser.violation with
      | none =>
        have attached' : e.hasDetached = false := by
          rw [hasDetached, Parser.hasDetached, violation]
          rfl
        obtain ⟨passed, holds, same, reason⟩ := ih drained attached' (n + 1)
        rw [read_of_attached drain violation]
        have first : Holds (chunkDeliveries chunk frames []) [chunk] [frames] [] :=
          .chunk (fun _ => by simp) frames
        exact ⟨passed, first.append holds (.inl rfl), same, reason⟩
      | some v =>
        have detached : e.hasDetached = true := by
          rw [hasDetached, Parser.hasDetached, violation]
          rfl
        have reported : e.detachReported = true := by rw [drained.detachReported_eq, detached]
        have each := feedEach_of_reported reported rest
        obtain ⟨-, parser, unread⟩ := feed_of_reported drained.toSound reported rest
        have last := holds_of_detached e.takeRemaining.1 (n + 1) (n, v) rest
        rw [read_of_detaching drain violation, each]
        have first : Holds _ [chunk] [frames] (if e.unread.isEmpty then [] else [e.unread]) :=
          .chunk (fun _ => by cases e.unread <;> simp) frames
        refine ⟨_, first.append last (.inr (by simp)), ?_, ?_⟩
        · rw [leftover, hasDetached, parser, ← hasDetached, detached, if_pos rfl, unread,
            List.flatten_append]
          cases e.unread <;> simp
        · rw [parser, violation, detached_readAll]
          rfl

end Progress

theorem ne_nil_of_mem_chunksOf {size fuel : Nat} {input chunk : Bytes} (positive : 0 < size)
    (member : chunk ∈ chunksOf size fuel input) : chunk ≠ [] := by
  induction fuel generalizing input with
  | zero => cases member
  | succ fuel ih =>
    rw [chunksOf] at member
    split at member
    · cases member
    · rename_i some
      rcases List.mem_cons.mp member with rfl | later
      · have rest : input ≠ [] := by simpa using some
        simp [rest]
        omega
      · exact ih later

theorem ne_nil_of_mem_chunks {size : Nat} {input chunk : Bytes}
    (member : chunk ∈ chunks size input) : chunk ≠ [] :=
  ne_nil_of_mem_chunksOf (by omega) member

def Tally.records (tally : Tally) : List ReplayToken := tally.tokens.reverse

namespace Play.Over

variable {deliveries : List Delivery} {tally : Tally} {history : History} {chunks : List Bytes}
  {each : List (List Frame)} {passed : List Bytes}

theorem records_lane (done : Over deliveries tally history)
    (holds : Holds deliveries chunks each passed) (lane : Lane) :
    tally.records.filter (fun token => token.lane == lane) = laneTokens deliveries lane := by
  have started (lane : Lane) :
      (gather Moment.events history).flatMap (Event.started lane) = laneTokens deliveries lane := by
    rw [← gather_flatMap]
    exact done.started lane
  rw [Tally.records, done.tally, tallyOf_eq, List.reverse_reverse, ← started]
  apply filter_begun
  intro lane token member
  rw [started] at member
  cases lane with
  | high =>
    rw [holds.high] at member
    obtain ⟨f, inside, rfl⟩ := List.mem_map.mp member
    simp [Token.lane, (List.mem_filter.mp inside).2]
  | normal =>
    rw [holds.normal] at member
    rcases List.mem_append.mp member with frame | terminal
    · obtain ⟨f, inside, rfl⟩ := List.mem_map.mp frame
      have calm : f.isUrgent = false := by simpa using (List.mem_filter.mp inside).2
      simp [Token.lane, calm]
    · obtain ⟨piece, -, rfl⟩ := List.mem_map.mp terminal
      rfl

theorem reported_perm (done : Over deliveries tally history) :
    ((gather Moment.events history).flatMap Event.report).Perm
      (deliveries.map Delivery.byteLength) := by
  have lanes := gather_lanes Event.report_lanes history
  have high := done.told .high
  have normal := done.told .normal
  unfold Moment.told at high normal
  rw [gather_flatMap, high, normal, laneLengths, laneLengths, ← List.map_append] at lanes
  simp only [Lane.beq_normal] at lanes
  exact lanes.trans ((List.filter_append_perm _ deliveries).map _)

end Play.Over

/-- What a replay of an input has printed and counted when it is done: one record for each
token. The bytes that are passed through are given piece by piece, and `released` is what the
decoder has consumed. -/
structure Replayed (decoder : Decoder) (input : Bytes) (pieces passed : List Bytes)
    (released : List Release) (play : Play) (tally : Tally) : Prop where
  -- The records of the normal lane are the frames that are not urgent, and then the bytes
  -- that are passed through.
  normal : tally.records.filter (fun token => token.lane == .normal) =
    ((decoder.feed pieces).2.filter fun f => !f.isUrgent).map .frame ++ passed.map .terminal
  -- Those of the high lane are the terminations, and then that the decoder has detached, if
  -- it has.
  high : tally.records.filter (fun token => token.lane == .high) =
    ((decoder.feed pieces).2.filter Frame.isTerminate ++
      if (decoder.feed pieces).1.hasDetached then [Frame.detach] else []).map .frame
  -- Each lane has started and executed its records, each once and in order.
  lanes : ∃ history, Run history play.scheduler.executor ∧ tally = tallyOf history ∧ ∀ lane,
    gather (Moment.started lane) history =
        tally.records.filter (fun token => token.lane == lane) ∧
      gather (Moment.executed lane) history =
        tally.records.filter fun token => token.lane == lane
  -- What is passed through is what the decoder has left, if it has detached.
  leftover : passed.flatten = (decoder.feed pieces).1.leftover
  present : ∀ piece ∈ passed, piece ≠ []
  -- What it has left is the input without what its frames were read from.
  consumed : released.filterMap Release.frame? = (decoder.feed pieces).2
  unread : input = released.flatMap Release.bytes ++ (decoder.feed pieces).1.unread
  bytes : tally.bytes = input.length
  batches : tally.batches =
    pieces.length + (decoder.feedEach pieces).countP fun frames => frames.any Frame.isUrgent
  count : tally.records.length = (decoder.feed pieces).2.length + passed.length
  -- What is counted when the perform starts is all that is ever counted.
  final : play.tally = tally

def deliveriesOf (decoder : Decoder) (chunkSize : Nat) (input : Bytes) : List Delivery :=
  (Progress.readAll ⟨decoder, 0, none⟩ (chunks chunkSize input)).2

theorem Play.Played.comesTo {recovering : Bool} {connection : String} {limits : Limits}
    {chunkSize : Nat} {input : Bytes} {play : Play} {tally : Tally} {history : History}
    (played : Played
      (deliveriesOf (Decoder.start recovering connection limits) chunkSize input) play history)
    (result : play.result = some tally) :
    ∃ passed released, Replayed (Decoder.start recovering connection limits) input
      (chunks chunkSize input) passed released play tally := by
  have spoken := spoken_start recovering connection limits
  have conserves := conserves_start recovering connection limits
  have attached := hasDetached_start recovering connection limits
  generalize Decoder.start recovering connection limits = decoder
    at played spoken conserves attached ⊢
  let calls := (chunks chunkSize input).flatMap fun chunk => [Call.push chunk, .drain]
  obtain ⟨passed, holds, leftover, -⟩ :=
    Progress.holds_readAll spoken attached 0 (chunks chunkSize input)
  rw [← deliveriesOf] at holds
  have nonempty : ∀ chunk ∈ chunks chunkSize input, chunk ≠ [] := fun chunk => ne_nil_of_mem_chunks
  obtain ⟨done, final⟩ := played.completes (holds.real nonempty) result
  have normal := done.records_lane holds .normal
  have high := done.records_lane holds .high
  rw [holds.normal, flatten_feedEach] at normal
  rw [holds.high, flatten_feedEach] at high
  refine ⟨passed, decoder.released calls, ⟨normal, ?_, ?_, leftover, holds.present nonempty, ?_, ?_,
    ?_, ?_, ?_, final⟩⟩
  · have said := spoken.calls calls
    rw [calls_feed, List.nil_append] at said
    obtain ⟨speech, frames, -, -, detached, -⟩ := said.speech
    rw [high, ← frames, speech.filter_isUrgent, detached]
  · refine ⟨history, played.run, done.tally, ?_⟩
    intro lane
    rw [done.records_lane holds]
    exact ⟨done.started lane, done.executed lane⟩
  · rw [frames_released, calls_feed]
  · have whole := (conserves.calls calls).bytes
    rwa [calls_feed, pushed_feed, flatten_chunks, List.nil_append, List.nil_append] at whole
  · rw [done.tally, tallyOf_eq, done.reported_perm.sum_nat, holds.bytes, flatten_chunks]
  · rw [done.tally, tallyOf_eq, done.reported_perm.length_eq, List.length_map, holds.size]
  · have records := List.length_eq_length_filter_add (l := tally.records)
      fun token => token.lane == .high
    have frames := List.length_eq_length_filter_add (l := (decoder.feed (chunks chunkSize input)).2)
      Frame.isUrgent
    simp only [← Lane.beq_normal] at records
    rw [records, frames, high, normal, List.length_append, List.length_map, List.length_map,
      List.length_map]
    omega

/-- However the producer and the executor take turns, a replay that comes to its end has
printed the stream of its input, each token once. -/
theorem Play.Reached.replayed {recovering : Bool} {connection : String} {limits : Limits}
    {chunkSize capacity : Nat} {input : Bytes} {play : Play} {tally : Tally}
    (reached : Play.Reached capacity
      (deliveriesOf (Decoder.start recovering connection limits) chunkSize input) play)
    (result : play.result = some tally) :
    ∃ passed released, Replayed (Decoder.start recovering connection limits) input
      (chunks chunkSize input) passed released play tally := by
  obtain ⟨history, played⟩ := reached.played
  exact played.comesTo result

/-- The urgent frames of the first chunk overtake its session, and what is left of it is
passed through ahead of the second chunk. -/
theorem replayed_overtaking :
    let input := Utf8.encode ("\x1b]134;:begin X\x07\x1b]135;:end X\x07" ++
      "\x1b]134;:%terminate 3 0\x07\x1b]135;:unhook\x07$ ls").toList
    let deliveries := deliveriesOf (start true "c" ⟨24, 8⟩) 66 input
    let parties : List Party := .replicate 2 .producer ++ .replicate 40 .executor ++
      .replicate 2 .producer ++ .replicate 40 .executor
    let play := parties.foldl Play.move (.start 1 deliveries)
    (play.result.map fun tally => tally.records.map Token.lane) =
        some [.high, .high, .normal, .normal, .normal, .normal] ∧
      (play.result.map fun tally => (tally.batches, tally.bytes)) = some (3, 68) ∧
      ∃ tally, play.result = some tally ∧
        ∃ passed released, Replayed (start true "c" ⟨24, 8⟩) input (chunks 66 input) passed
          released play tally := by
  intro input deliveries parties play
  refine ⟨by decide +kernel, by decide +kernel, ?_⟩
  have done : play.result.isSome := by decide +kernel
  obtain ⟨tally, result⟩ := Option.isSome_iff_exists.mp done
  have reached : Play.Reached 1 deliveries play := Play.Reached.start.moves parties
  exact ⟨tally, result, Play.Reached.replayed reached result⟩

end Replay

end TerminalFeed
