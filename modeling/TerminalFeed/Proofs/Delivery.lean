import TerminalFeed.Proofs.Blocks
import TerminalFeed.Proofs.Speech

/-!
An output block on its way through a decoder. Wherever the stream is cut, what
has come so far is the front of what was sent: a decoder stands before the
header, or as far into the body as it has taken it. So the block comes out with
its last byte at the latest, unless it is too long and is given up before.
-/

namespace TerminalFeed

open Framing

namespace OutputBlock

/-- The states in which a block is read, with how much of what was sent lies behind
and what lies ahead. -/
inductive Underway (block : OutputBlock) (limits : Limits) (suffix : Bytes) :
    State → Nat → Bytes → Prop
  | header : Underway block limits suffix .ground 0 (block.encode ++ suffix)
  | body {done left : Bytes} (parts : done ++ left = block.raw.toList)
      (room : done.length ≤ limits.output) :
      Underway block limits suffix (.output { block with raw := done.toArray })
        ((Envelope.encode frameCode block.header).length + done.length)
        (left ++ Envelope.encode frameCode block.footer ++ suffix)

def Proceeds (block : OutputBlock) (limits : Limits) (suffix : Bytes) (offset : Nat)
    (ahead input : Bytes) (step : Step) : Prop :=
  match step.event with
  | .progress =>
      block.Underway limits suffix step.state (offset + step.consumed) (ahead.drop step.consumed)
  | .blocked => input ≠ ahead
  | .frame f =>
      f = block.frame ∧ block.raw.size ≤ limits.output ∧
        offset + step.consumed = block.encode.length
  | .detach v => v = .outputTooLarge block.id limits.output ∧ limits.output < block.raw.size

theorem proceeds_extend {block : OutputBlock} {rules : Rules} {suffix done left input : Bytes}
    {n : Nat} (parts : done ++ left = block.raw.toList) (inside : n ≤ left.length)
    (front : input.take n = left.take n) :
    block.Proceeds rules.limits suffix
      ((Envelope.encode frameCode block.header).length + done.length)
      (left ++ Envelope.encode frameCode block.footer ++ suffix) input
      (extend rules { block with raw := done.toArray } n input) := by
  have size : done.length + left.length = block.raw.size := by
    rw [← List.length_append, parts, Array.length_toList]
  unfold extend
  dsimp only
  rw [List.size_toArray]
  split
  · exact ⟨rfl, by omega⟩
  · have parts' : (done ++ left.take n) ++ left.drop n = block.raw.toList := by
      rw [List.append_assoc, List.take_append_drop, parts]
    have length : (done ++ left.take n).length = done.length + n := by
      rw [List.length_append, List.length_take, Nat.min_eq_left inside]
    have next : block.Underway rules.limits suffix _ _ _ :=
      .body parts' (by rw [length]; omega)
    have raw : pushFront done.toArray n input = (done ++ left.take n).toArray := by
      rw [pushFront_eq, front]
      simp
    rw [length, ← Nat.add_assoc] at next
    rw [Proceeds]
    dsimp only
    rwa [raw, List.append_assoc, List.drop_append_of_le_length inside, ← List.append_assoc]

theorem Underway.proceeds {block : OutputBlock} {rules : Rules} {suffix : Bytes} {working : State}
    {offset : Nat} {ahead input : Bytes}
    (underway : block.Underway rules.limits suffix working offset ahead)
    (sendable : block.Sendable rules.limits.envelope) (front : input <+: ahead) :
    block.Proceeds rules.limits suffix offset ahead input (transition rules working input) := by
  cases underway with
  | header =>
    obtain ⟨noEsc, noBel⟩ := sendable.plain_header
    rw [encode, List.append_assoc, List.append_assoc] at front ⊢
    rcases scan_front noEsc noBel sendable.header sendable.numbers front with
      ⟨incomplete, short⟩ | ⟨rest, rfl⟩
    · rw [transition_eq_answer rules input (by simp), incomplete]
      exact short
    · have next : block.Underway rules.limits suffix _ _ _ :=
        .body (List.nil_append block.raw.toList) (Nat.zero_le _)
      rw [List.length_nil, Nat.add_zero] at next
      rw [sendable.transition_header rules rfl rest, Proceeds]
      dsimp only
      rw [Nat.zero_add, List.drop_left, ← List.append_assoc]
      exact next
  | @body done left parts room =>
    by_cases some : left = []
    · -- The whole body has been taken, and its end is the next envelope.
      subst some
      rw [List.append_nil] at parts
      subst parts
      obtain ⟨noEsc, noBel⟩ := sendable.plain_footer
      rw [List.nil_append] at front ⊢
      rcases scan_front noEsc noBel sendable.footer sendable.numbers front with
        ⟨incomplete, short⟩ | ⟨rest, rfl⟩
      · rw [transition_eq_answer rules input (by simp), incomplete]
        exact short
      · rw [Array.toArray_toList, sendable.transition_footer rules rfl rest]
        refine ⟨rfl, room, ?_⟩
        rw [encode, List.length_append, List.length_append]
    · -- The end of the block is in sight only as the opening behind the body.
      have harmless : { block with raw := done.toArray }.Harmless rules.limits.envelope left :=
        sendable.body.of_suffix ⟨done, parts⟩
      have opens : Envelope.encode frameCode block.footer ++ suffix =
          esc :: bracket :: ((Envelope.encode frameCode block.footer ++ suffix).drop 2) := rfl
      rw [List.append_assoc, opens] at front
      rcases transition_body rules some harmless front with
        ⟨blocked, short⟩ | ⟨n, inside, here, step⟩
      · rw [← opens, ← List.append_assoc] at short
        rw [Proceeds, blocked]
        exact short
      · obtain ⟨later, whole⟩ := front
        rw [step]
        apply proceeds_extend parts inside
        rw [← List.take_append_of_le_length here, whole, List.take_append_of_le_length inside]

def Delivers (block : OutputBlock) (limits : Limits) (suffix ahead rest : Bytes)
    (r : Parser.Result) : Prop :=
  match r.outcome with
  | .blocked => rest ≠ ahead ∧ ∃ c left, r.checkpoint = some c ∧
      block.Underway limits suffix c.state c.offset left
  | .frame f =>
      f = block.frame ∧ block.raw.size ≤ limits.output ∧ r.consumed = block.encode.length
  | .detach v => v = .outputTooLarge block.id limits.output ∧ limits.output < block.raw.size

theorem Underway.delivers {block : OutputBlock} {p : Parser} {suffix : Bytes} {working : State}
    {offset : Nat} {ahead rest : Bytes}
    (underway : block.Underway p.rules.limits suffix working offset ahead)
    (sendable : block.Sendable p.rules.limits.envelope) (front : rest <+: ahead) :
    block.Delivers p.rules.limits suffix ahead rest (p.read working offset rest) := by
  -- On the steps of the call: each keeps `Underway` until the last.
  refine Parser.read_induction (p := p) (motive := fun working offset rest r =>
    ∀ ahead, block.Underway p.rules.limits suffix working offset ahead → rest <+: ahead →
      block.Delivers p.rules.limits suffix ahead rest r) ?_ ?_ working offset rest ahead
    underway front
  · intro working offset rest decided ahead underway front
    have proceeds := underway.proceeds sendable front
    have accounts := transition_accounts p.rules working rest
    generalize transition p.rules working rest = step at decided proceeds accounts ⊢
    rw [Proceeds] at proceeds
    rw [Step.Accounts] at accounts
    rw [Parser.conclude]
    cases event : step.event with
    | progress => exact absurd event decided
    | blocked =>
      rw [event] at proceeds accounts
      subst accounts
      exact ⟨proceeds, ⟨working, offset⟩, ahead, rfl, underway⟩
    | frame f =>
      rw [event] at proceeds
      exact proceeds
    | detach v =>
      rw [event] at proceeds
      exact proceeds
  · intro working offset rest r progress _ later ahead underway front
    have proceeds := underway.proceeds sendable front
    have accounts := transition_accounts p.rules working rest
    rw [Proceeds, progress] at proceeds
    rw [Step.Accounts, progress] at accounts
    obtain ⟨more, whole⟩ := front
    have delivers := later _ proceeds
      ⟨more, by rw [← whole, List.drop_append_of_le_length accounts.2.1]⟩
    unfold Delivers at delivers ⊢
    cases outcome : r.outcome with
    | blocked =>
      rw [outcome] at delivers
      exact ⟨fun same => delivers.1 (congrArg _ same), delivers.2⟩
    | frame f =>
      rw [outcome] at delivers
      exact delivers
    | detach v =>
      rw [outcome] at delivers
      exact delivers

theorem Underway.ahead_eq {block : OutputBlock} {limits : Limits} {suffix : Bytes}
    {working : State} {offset : Nat} {ahead : Bytes}
    (underway : block.Underway limits suffix working offset ahead) :
    ahead = (block.encode ++ suffix).drop offset := by
  cases underway with
  | header => rfl
  | @body done left parts room =>
    have whole : block.encode ++ suffix = (Envelope.encode frameCode block.header ++ done) ++
        (left ++ Envelope.encode frameCode block.footer ++ suffix) := by
      rw [encode, ← parts]
      simp only [List.append_assoc]
    rw [whole, ← List.length_append, List.drop_left]

end OutputBlock

namespace Decoder

/-- Takes chunks one by one and asks for a frame behind each, up to the first frame.
Chunks behind that are left. -/
def await (d : Decoder) : List Bytes → Decoder × Option Frame × List Bytes
  | [] => (d, none, [])
  | chunk :: rest =>
    match (d.push chunk).next with
    | (d, some f) => (d, some f, rest)
    | (d, none) => d.await rest

structure Awaits (block : OutputBlock) (suffix : Bytes) (d : Decoder) (pending : Bytes) :
    Prop where
  sound : d.Sound
  unreported : d.detachReported = false
  underway : ∃ ahead, block.Underway d.parser.rules.limits suffix d.outset.1 d.outset.2 ahead
  stream : d.unread ++ pending = block.encode ++ suffix
  more : pending ≠ []

/-- What a decoder has come to with the first frame it finds, and `left` not pushed. -/
def Receives (block : OutputBlock) (suffix : Bytes) (limits : Limits) (e : Decoder) (f : Frame)
    (left : Bytes) : Prop :=
  block.raw.size ≤ limits.output ∧ f = block.frame ∧ e.unread ++ left = suffix ∨
    limits.output < block.raw.size ∧ f = .detach ∧
      e.parser.violation = some (.outputTooLarge block.id limits.output) ∧
      e.unread ++ left = block.encode ++ suffix

theorem Awaits.next {block : OutputBlock} {suffix data pending : Bytes} {d : Decoder}
    (awaits : Awaits block suffix d (data ++ pending))
    (sendable : block.Sendable d.parser.rules.limits.envelope) :
    match (d.push data).next with
    | (e, none) => Awaits block suffix e pending ∧ e.parser = d.parser
    | (e, some f) => Receives block suffix d.parser.rules.limits e f pending := by
  obtain ⟨sound, unreported, ⟨ahead, underway⟩, stream, -⟩ := awaits
  have stream' : (d.push data).unread ++ pending = block.encode ++ suffix := by
    rw [unread_push d data sound.position, List.append_assoc, stream]
  -- From here on the decoder behind the push stands for the one before it.
  rw [← parser_push d data] at sendable underway ⊢
  rw [← outset_push sound data] at underway
  rw [← detachReported_push d data] at unreported
  replace sound := sound.push data
  generalize d.push data = d at sound unreported stream' sendable underway ⊢
  have start := outset_le d
  have front : ahead = d.unread.drop d.outset.2 ++ pending := by
    rw [underway.ahead_eq, ← stream', List.drop_append_of_le_length (by rwa [length_unread])]
  have after := sound.next
  have accounts := reading_accounts d
  have delivers : block.Delivers d.parser.rules.limits suffix ahead _ d.reading :=
    underway.delivers sendable ⟨pending, front.symm⟩
  rw [next_eq_reading sound unreported] at after ⊢
  generalize d.reading = r at delivers accounts after ⊢
  unfold OutputBlock.Delivers at delivers
  unfold Parser.Result.Accounts at accounts
  rw [Nat.add_sub_cancel' start] at accounts
  cases outcome : r.outcome with
  | blocked =>
    rw [outcome] at delivers accounts
    obtain ⟨c, same, -, inside⟩ := accounts
    subst same
    obtain ⟨short, c', left, ⟨⟩, underway'⟩ := delivers
    refine ⟨⟨after, unreported, ⟨left, ?_⟩, stream', ?_⟩, rfl⟩
    · have kept := outset_kept inside
      change block.Underway d.parser.rules.limits suffix
        ({ d with checkpoint := some c } : Decoder).outset.1
        ({ d with checkpoint := some c } : Decoder).outset.2 left
      rw [kept]
      exact underway'
    · -- A call that has all of the block before it is not blocked.
      rintro rfl
      exact short (by rw [front, List.append_nil])
  | frame f =>
    rw [outcome] at delivers accounts
    obtain ⟨same, room, consumed⟩ := delivers
    have unread := unread_accept d r
    simp only [accept, outcome] at unread ⊢
    refine .inl ⟨room, same, ?_⟩
    rw [unread, ← List.drop_append_of_le_length, stream', consumed, List.drop_left]
    rw [length_unread]
    exact accounts.2.1
  | detach v =>
    rw [outcome] at delivers accounts
    obtain ⟨reached, -, same⟩ := accounts
    subst same
    obtain ⟨rfl, large⟩ := delivers
    refine .inr ⟨large, rfl, rfl, ?_⟩
    exact stream'

theorem Awaits.await {block : OutputBlock} {suffix : Bytes} {d : Decoder} {chunks : List Bytes}
    (awaits : Awaits block suffix d chunks.flatten)
    (sendable : block.Sendable d.parser.rules.limits.envelope) :
    let (e, found, left) := d.await chunks
    ∃ f, found = some f ∧ Receives block suffix d.parser.rules.limits e f left.flatten := by
  induction chunks generalizing d with
  | nil => exact absurd rfl awaits.more
  | cons chunk rest ih =>
    have step := awaits.next sendable
    rw [Decoder.await]
    generalize (d.push chunk).next = after at step
    obtain ⟨e, _ | f⟩ := after
    · obtain ⟨awaits', same⟩ := step
      rw [← same] at sendable ⊢
      exact ih awaits' sendable
    · exact ⟨f, rfl, step⟩

def Reachable (d : Decoder) : Prop :=
  ∃ recovering connection limits calls, ((start recovering connection limits).calls calls).1 = d

theorem Spoken.rests {recovering : Bool} {said : List Frame} {d : Decoder}
    (spoken : d.Spoken recovering said) (ground : d.parser.state = .ground)
    (empty : d.available = 0) (attached : d.hasDetached = false) :
    d.outset = (.ground, 0) ∧ d.detachReported = false ∧ d.unread = [] := by
  obtain ⟨speech, -, -, reports, detached, -⟩ := spoken.speech
  have none := outset_le d
  rw [empty, Nat.le_zero_eq] at none
  have moved := spoken.toPaced.outset.2
  rw [none] at moved
  refine ⟨?_, ?_, List.eq_nil_of_length_eq_zero (by rw [length_unread, empty])⟩
  · rw [← ground, ← none]
    exact Prod.ext (moved.resolve_left (Nat.lt_irrefl 0)) rfl
  · rw [reports, ← detached, attached]

theorem Spoken.awaits {recovering : Bool} {said : List Frame} {d : Decoder}
    {block : OutputBlock} {suffix stream : Bytes} (spoken : d.Spoken recovering said)
    (ground : d.parser.state = .ground) (empty : d.available = 0) (attached : d.hasDetached = false)
    (sent : stream = block.encode ++ suffix) : Awaits block suffix d stream := by
  obtain ⟨start, unreported, unread⟩ := spoken.rests ground empty attached
  refine ⟨spoken.toSound, unreported, ⟨block.encode ++ suffix, ?_⟩, ?_, ?_⟩
  · rw [start]
    exact .header
  · rw [unread, sent]
    rfl
  · rw [sent]
    exact nofun

/-- However the stream is cut and whatever the body holds, a block comes out as it was
sent, or is given up for its size with all its bytes. -/
theorem await_block {d : Decoder} {block : OutputBlock} {suffix : Bytes} {chunks : List Bytes}
    (reachable : d.Reachable) (ground : d.parser.state = .ground) (empty : d.available = 0)
    (attached : d.hasDetached = false)
    (sendable : block.Sendable d.parser.rules.limits.envelope)
    (sent : chunks.flatten = block.encode ++ suffix) :
    let e := (d.await chunks).1
    let found := (d.await chunks).2.1
    let left := (d.await chunks).2.2
    (block.raw.size ≤ d.parser.rules.limits.output →
      found = some (.output block.pid block.channel block.depth
        (block.raw.toList ++ if block.pid = pollPid then pollEndMark else [])) ∧
      e.unread ++ left.flatten = suffix) ∧
    (d.parser.rules.limits.output < block.raw.size →
      found = some .detach ∧
      e.parser.violation = some (.outputTooLarge block.id d.parser.rules.limits.output) ∧
      e.unread ++ left.flatten = block.encode ++ suffix) := by
  obtain ⟨recovering, connection, limits, calls, rfl⟩ := reachable
  have spoken := (spoken_start recovering connection limits).calls calls
  obtain ⟨f, found, receives⟩ := (spoken.awaits ground empty attached sent).await sendable
  dsimp only
  rw [found]
  rcases receives with ⟨room, rfl, rest⟩ | ⟨large, rfl, violation, rest⟩
  · refine ⟨fun _ => ⟨congrArg some ?_, rest⟩, fun large => absurd large (Nat.not_lt.mpr room)⟩
    rw [OutputBlock.frame]
    split
    · rfl
    · rw [List.append_nil]
  · exact ⟨fun room => absurd large (Nat.not_lt.mpr room), fun _ => ⟨rfl, violation, rest⟩⟩

/-- The header, the body and the end of the block are all cut. The body holds a foreign
sequence and an escape in front of the end, and is a byte too long for the second
decoder. -/
theorem await_block_in_pieces :
    let bytes (text : String) : Bytes := Utf8.encode text.toList
    let d := ((start true "c" ⟨16, 6⟩).calls []).1
    let narrow := ((start true "c" ⟨16, 5⟩).calls []).1
    let block : OutputBlock := ⟨"X", 3, 1, 0, (bytes "\x1b]9x\x07\x1b").toArray⟩
    let chunks := ["\x1b]13", "4;%output X 3 1 0\x1b\\\x1b]", "9x\x07\x1b", "\x1b]134;%en",
      "d X\x1b", "\\!", "?"].map bytes
    block.Sendable 16 ∧ chunks.flatten = block.encode ++ bytes "!?" ∧
      ((d.await chunks).2.1 = some (.output block.pid block.channel block.depth
          (block.raw.toList ++ if block.pid = pollPid then pollEndMark else [])) ∧
        (d.await chunks).1.unread ++ (d.await chunks).2.2.flatten = bytes "!?") ∧
      (narrow.await chunks).2.1 = some .detach ∧
        (narrow.await chunks).1.parser.violation =
          some (.outputTooLarge block.id narrow.parser.rules.limits.output) ∧
        (narrow.await chunks).1.unread ++ (narrow.await chunks).2.2.flatten =
          block.encode ++ bytes "!?" := by
  intro bytes d narrow block chunks
  have sendable : block.Sendable 16 := by
    refine ⟨by decide, by simp [Text.isBlank, block], by decide, by decide, by decide +kernel,
      by decide +kernel, ?_⟩
    intro digits rest code opens
    have member : semicolon ∈ block.raw.toList :=
      opens.subset (.tail _ (.tail _ (List.mem_append_right digits (.head rest))))
    exact absurd member (by decide +kernel)
  have sent : chunks.flatten = block.encode ++ bytes "!?" := by decide +kernel
  have reachable : d.Reachable := ⟨true, "c", ⟨16, 6⟩, [], rfl⟩
  have reachable' : narrow.Reachable := ⟨true, "c", ⟨16, 5⟩, [], rfl⟩
  have room : block.raw.size ≤ d.parser.rules.limits.output := by decide +kernel
  have large : narrow.parser.rules.limits.output < block.raw.size := by decide +kernel
  exact ⟨sendable, sent, (await_block reachable rfl rfl rfl sendable sent).1 room,
    (await_block reachable' rfl rfl rfl sendable sent).2 large⟩

example :
    let block : OutputBlock := ⟨"X", pollPid, 0, 0,
      (Envelope.encode frameCode "%end Y" ++ [esc, bracket, 0x39]).toArray⟩
    ((start true "c" ⟨32, 32⟩).await [block.encode]).2.1 = some (.output pollPid 0 0
      (Envelope.encode frameCode "%end Y" ++ [esc, bracket, 0x39] ++ pollEndMark)) := by
  decide +kernel

/-- A decoder that has detached stands in the ground state too, and finds nothing. -/
theorem not_await_block :
    ¬∀ (d : Decoder) (block : OutputBlock) (suffix : Bytes) (chunks : List Bytes),
      d.Reachable → d.parser.state = .ground → d.available = 0 →
      block.Sendable d.parser.rules.limits.envelope →
      chunks.flatten = block.encode ++ suffix →
      block.raw.size ≤ d.parser.rules.limits.output →
      (d.await chunks).2.1 = some (.output block.pid block.channel block.depth
        (block.raw.toList ++ if block.pid = pollPid then pollEndMark else [])) := by
  intro claim
  have sendable : OutputBlock.Sendable ⟨"X", 3, 1, 0, #[]⟩ 16 := by
    refine ⟨by decide, by simp [Text.isBlank], by decide, by decide, by decide +kernel,
      by decide +kernel, ?_⟩
    intro digits rest code opens
    exact absurd (List.suffix_nil.mp opens) (List.cons_ne_nil _ _)
  have found := claim
    ((start true "c" ⟨16, 8⟩).calls
      [.push (Utf8.encode "\x1b]135;unhook\x07".toList), .next]).1
    ⟨"X", 3, 1, 0, #[]⟩ [] [OutputBlock.encode ⟨"X", 3, 1, 0, #[]⟩] ⟨true, "c", ⟨16, 8⟩, _, rfl⟩
    (by decide +kernel) (by decide +kernel) sendable
    (by rw [List.flatten_singleton, List.append_nil]) (by decide +kernel)
  exact absurd found (by decide +kernel)

end Decoder

end TerminalFeed
