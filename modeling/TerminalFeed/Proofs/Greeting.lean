import TerminalFeed.Proofs.Chunks

/-!
How a connection is greeted. The first line of a stream is the greeting, and it
may end in any chunk. Its length is held against the limit while its end is
still to come, so a line that is too long is refused if that shows before the
chunk with its end, and let in if it does not.
-/

namespace TerminalFeed

open Framing

inductive Greeting where
  | awaited
  | given (payload : String)
  | refused (v : Violation)
  deriving DecidableEq, Repr

namespace Greeting

/-- What a decoder and the frames it has given out show of it, if they go together. -/
def shown? : Decoder × List Frame → Option Greeting
  | (_, []) => some .awaited
  | (_, .handshake payload :: _) => some (.given payload)
  | (d, [.detach]) => d.parser.violation.map refused
  | _ => none

def ofLine (connection : String) (line : Bytes) : Greeting :=
  match Utf8.decode? (dropReturn line) with
  | none => .refused .malformedHandshake
  | some text => .given (String.ofList text ++ " " ++ connection)

/-- What `bytes` come to, where so many came `early`, before the chunk with the
end of the first line. -/
def verdict (connection : String) (limit early : Nat) (bytes : Bytes) : Greeting :=
  if limit < early then .refused (.envelopeTooLarge limit)
  else if 10 ∈ bytes then ofLine connection (bytes.takeWhile (· ≠ 10))
  else .awaited

def early (chunks : List Bytes) : Nat :=
  (chunks.takeWhile fun chunk => 10 ∉ chunk).flatten.length

theorem early_cons (chunk : Bytes) (rest : List Bytes) :
    early (chunk :: rest) = if 10 ∈ chunk then 0 else chunk.length + early rest := by
  rw [early, List.takeWhile_cons]
  split
  · rename_i free
    rw [if_neg (of_decide_eq_true free), List.flatten_cons, List.length_append, early]
  · rename_i newline
    rw [if_pos (Decidable.not_not.mp (mt decide_eq_true newline)), List.flatten_nil,
      List.length_nil]

theorem early_of_free {chunks : List Bytes} (free : 10 ∉ chunks.flatten) :
    early chunks = chunks.flatten.length := by
  induction chunks with
  | nil => rfl
  | cons chunk rest ih =>
    rw [List.flatten_cons, List.mem_append, not_or] at free
    rw [early_cons, if_neg free.1, ih free.2, List.flatten_cons, List.length_append]

theorem early_le (chunks : List Bytes) :
    early chunks ≤ (chunks.flatten.takeWhile (· ≠ 10)).length := by
  induction chunks with
  | nil => exact Nat.le_refl 0
  | cons chunk rest ih =>
    rw [early_cons]
    split
    · exact Nat.zero_le _
    · rename_i free
      rw [List.flatten_cons, takeWhile_ne_append free, List.length_append]
      exact Nat.add_le_add_left ih _

theorem ofLine_ne (connection : String) (line : Bytes) (limit : Nat) :
    ofLine connection line ≠ .refused (.envelopeTooLarge limit) := by
  rw [ofLine]
  split
  · simp
  · simp

theorem verdict_eq_iff (connection : String) (limit : Nat) {early late : Nat} {bytes : Bytes}
    (ended : 10 ∈ bytes) :
    verdict connection limit early bytes = verdict connection limit late bytes ↔
      (limit < early ↔ limit < late) := by
  have other := ofLine_ne connection (bytes.takeWhile (· ≠ 10)) limit
  rw [verdict, verdict, if_pos ended]
  generalize ofLine connection (bytes.takeWhile (· ≠ 10)) = answer at other ⊢
  by_cases first : limit < early <;> by_cases second : limit < late <;>
    simp [first, second, other, other.symm]

theorem verdict_eq_given {connection payload : String} {limit early : Nat} {bytes : Bytes} :
    verdict connection limit early bytes = .given payload ↔
      early ≤ limit ∧ 10 ∈ bytes ∧
        ofLine connection (bytes.takeWhile (· ≠ 10)) = .given payload := by
  rw [verdict, ← Nat.not_lt]
  by_cases long : limit < early
  · simp [long]
  · by_cases ended : 10 ∈ bytes <;> simp [long, ended]

end Greeting

theorem length_takeWhile_ne {stop : UInt8} {bytes : Bytes} :
    (bytes.takeWhile (· ≠ stop)).length = bytes.length ↔ stop ∉ bytes := by
  constructor
  · intro all found
    have whole := (List.takeWhile_prefix (· ≠ stop)).eq_of_length all
    rw [← whole] at found
    have none : (bytes.takeWhile (· ≠ stop)).all (· ≠ stop) := List.all_takeWhile
    simpa using List.all_eq_true.mp none stop found
  · intro free
    rw [← List.append_nil bytes, takeWhile_ne_append free, List.takeWhile_nil]

namespace Parser

/-- A line that has ended is read whatever its length. -/
theorem read_initial (p : Parser) (input : Bytes) :
    p.read .initial 0 input =
      if 10 ∈ input then
        match Utf8.decode? (dropReturn (input.takeWhile (· ≠ 10))) with
        | none => p.detach .malformedHandshake 0
        | some text =>
          ⟨{ p with state := .ground },
            .frame (.handshake (String.ofList text ++ " " ++ p.rules.connection)),
            (input.takeWhile (· ≠ 10)).length + 1, none⟩
      else if p.rules.limits.envelope < input.length then
        p.detach (.envelopeTooLarge p.rules.limits.envelope) 0
      else p.block .initial 0 := by
  rw [read_eq, transition, greet, lengthBefore_eq, Nat.zero_add]
  by_cases newline : 10 ∈ input
  · have line : input.take (input.takeWhile (· ≠ 10)).length = input.takeWhile (· ≠ 10) :=
      (List.prefix_iff_eq_take.mp (List.takeWhile_prefix _)).symm
    have ended := mt length_takeWhile_ne.mp (not_not_intro newline)
    simp only [if_neg ended, if_pos newline, line]
    cases Utf8.decode? (dropReturn (input.takeWhile (· ≠ 10))) with
    | none => exact p.detach_eq (by simp) _ _
    | some text => simp [conclude]
  · have all := length_takeWhile_ne.mpr newline
    simp only [all, if_true, if_neg newline]
    by_cases long : p.rules.limits.envelope < input.length
    · rw [if_pos long, if_pos long]
      exact p.detach_eq (by simp) _ _
    · rw [if_neg long, if_neg long]
      rfl

end Parser

namespace Decoder

structure Ungreeted (p : Parser) (d : Decoder) (bytes : Bytes) : Prop extends d.Sound where
  parser : d.parser = p
  unreported : d.detachReported = false
  start : d.outset = (.initial, 0)
  unread : d.unread = bytes

variable {p : Parser} {d : Decoder} {bytes : Bytes}

theorem ungreeted_ofParser (initial : p.state = .initial) (attached : p.violation = none) :
    Ungreeted p (ofParser p) [] where
  toSound := sound_ofParser attached
  parser := rfl
  unreported := rfl
  start := Prod.ext initial rfl
  unread := rfl

theorem Ungreeted.push (ungreeted : Ungreeted p d bytes) (chunk : Bytes) :
    Ungreeted p (d.push chunk) (bytes ++ chunk) where
  toSound := ungreeted.toSound.push chunk
  parser := (parser_push d chunk).trans ungreeted.parser
  unreported := (detachReported_push d chunk).trans ungreeted.unreported
  start := (outset_push ungreeted.toSound chunk).trans ungreeted.start
  unread := by rw [unread_push d chunk ungreeted.position, ungreeted.unread]

theorem Ungreeted.next (ungreeted : Ungreeted p d bytes) :
    d.next = d.accept (p.read .initial 0 bytes) := by
  rw [next_eq_reading ungreeted.toSound ungreeted.unreported, reading, ungreeted.start,
    ungreeted.parser, ungreeted.unread, List.drop_zero]

theorem Ungreeted.block (ungreeted : Ungreeted p d bytes) :
    Ungreeted p (d.accept (p.block .initial 0)).1 bytes where
  position := ungreeted.position
  checkpoint c kept := by
    cases kept
    exact Nat.zero_le _
  attached := ungreeted.parser ▸ ungreeted.attached
  parser := rfl
  unreported := ungreeted.unreported
  start := outset_kept (d := (d.accept (p.block .initial 0)).1) (Nat.zero_le _)
  unread := by rw [unread_accept, ungreeted.unread]; rfl

theorem Drains.head {e last : Decoder} {f : Frame} {frames : List Frame}
    (drains : Drains d frames last) (found : d.next = (e, some f)) :
    ∃ more, frames = f :: more ∧ Drains e more last := by
  cases drains with
  | done empty => cases empty.symm.trans found
  | frame found' rest =>
    cases found.symm.trans found'
    exact ⟨_, rfl, rest⟩

theorem drain_of_blocked {e : Decoder} (sound : d.Sound) (blocked : d.next = (e, none)) :
    d.drain = (e, []) := by
  obtain ⟨frames, last⟩ := (drains_drain sound).unique (.done blocked)
  exact Prod.ext last frames

theorem drain_of_detached {e : Decoder} (sound : d.Sound) (detached : d.next = (e, some .detach))
    (reported : e.detachReported = true) : d.drain = (e, [.detach]) := by
  obtain ⟨frames, last⟩ := (drains_drain sound).unique
    (.frame detached (.done (next_of_reported reported)))
  exact Prod.ext last frames

theorem Ungreeted.shown?_of_detached (ungreeted : Ungreeted p d bytes) {v : Violation}
    (detached : p.read .initial 0 bytes = p.detach v 0) (rest : List Bytes) :
    Greeting.shown? ((d.drain.1.feed rest).1, d.drain.2 ++ (d.drain.1.feed rest).2) =
      some (.refused v) := by
  obtain ⟨e, told, reported, violation⟩ : ∃ e, d.next = (e, some .detach) ∧
      e.detachReported = true ∧ e.parser.violation = some v := by
    rw [ungreeted.next, detached]
    exact ⟨_, rfl, rfl, rfl⟩
  have sound := ungreeted.toSound.next
  rw [told] at sound
  obtain ⟨frames, parser, -⟩ := feed_of_reported sound reported rest
  rw [drain_of_detached ungreeted.toSound told reported, frames, List.append_nil,
    Greeting.shown?, parser, violation]
  rfl

theorem Ungreeted.shown?_of_line (ungreeted : Ungreeted p d bytes) (ended : 10 ∈ bytes)
    (rest : List Bytes) :
    Greeting.shown? ((d.drain.1.feed rest).1, d.drain.2 ++ (d.drain.1.feed rest).2) =
      some (.ofLine p.rules.connection (bytes.takeWhile (· ≠ 10))) := by
  have read := p.read_initial bytes
  rw [if_pos ended] at read
  rw [Greeting.ofLine]
  cases decoded : Utf8.decode? (dropReturn (bytes.takeWhile (· ≠ 10))) with
  | none =>
    simp only [decoded] at read
    exact ungreeted.shown?_of_detached read rest
  | some text =>
    have next := ungreeted.next
    simp only [read, decoded] at next
    obtain ⟨more, frames, -⟩ := (drains_drain ungreeted.toSound).head next
    rw [frames]
    rfl

theorem Ungreeted.shown?_feed (ungreeted : Ungreeted p d bytes) (free : 10 ∉ bytes)
    (short : bytes.length ≤ p.rules.limits.envelope) (chunks : List Bytes) :
    Greeting.shown? (d.feed chunks) =
      some (.verdict p.rules.connection p.rules.limits.envelope
        (bytes.length + Greeting.early chunks) (bytes ++ chunks.flatten)) := by
  -- `bytes` are what has come so far: the end is not among them, and they fit.
  induction chunks generalizing d bytes with
  | nil =>
    simp [feed, Greeting.shown?, Greeting.verdict, Greeting.early, Nat.not_lt.mpr short, free]
  | cons chunk rest ih =>
    have pushed := ungreeted.push chunk
    rw [feed, List.flatten_cons, ← List.append_assoc]
    dsimp only
    by_cases newline : 10 ∈ chunk
    · -- Nothing more is early, and how long the line has become is not looked at.
      have here : 10 ∈ bytes ++ chunk := List.mem_append_right _ newline
      have line : (bytes ++ chunk ++ rest.flatten).takeWhile (· ≠ 10) =
          (bytes ++ chunk).takeWhile (· ≠ 10) := by
        rw [List.takeWhile_append, if_neg (mt length_takeWhile_ne.mp (not_not_intro here))]
      rw [pushed.shown?_of_line here, Greeting.early_cons, if_pos newline, Nat.add_zero,
        Greeting.verdict, if_neg (Nat.not_lt.mpr short), if_pos (List.mem_append_left _ here),
        line]
    · have free' : 10 ∉ bytes ++ chunk := by simp [free, newline]
      rw [Greeting.early_cons, if_neg newline, ← Nat.add_assoc, ← List.length_append]
      have read := p.read_initial (bytes ++ chunk)
      rw [if_neg free'] at read
      by_cases long : p.rules.limits.envelope < (bytes ++ chunk).length
      · rw [if_pos long] at read
        rw [pushed.shown?_of_detached read, Greeting.verdict,
          if_pos (Nat.lt_of_lt_of_le long (Nat.le_add_right _ _))]
      · rw [if_neg long] at read
        have next := pushed.next
        rw [read] at next
        rw [drain_of_blocked pushed.toSound next]
        exact ih pushed.block free' (Nat.not_lt.mp long)

def greeting? (connection : String) (limits : Limits) (chunks : List Bytes) : Option Greeting :=
  Greeting.shown? ((new connection limits).feed chunks)

theorem greeting?_eq (connection : String) (limits : Limits) (chunks : List Bytes) :
    greeting? connection limits chunks =
      some (.verdict connection limits.envelope (Greeting.early chunks) chunks.flatten) := by
  have ungreeted : Ungreeted (.new connection limits) (new connection limits) [] :=
    ungreeted_ofParser rfl rfl
  have shown := ungreeted.shown?_feed List.not_mem_nil (Nat.zero_le _) chunks
  rwa [List.length_nil, Nat.zero_add, List.nil_append] at shown

structure Greets (connection : String) (limits : Limits) (chunks others : List Bytes) : Prop where
  outcome : greeting? connection limits chunks =
    some (.verdict connection limits.envelope (Greeting.early chunks) chunks.flatten)
  -- Cuts are told apart only by whether the limit is overrun before the end of the line comes.
  alike : greeting? connection limits chunks = greeting? connection limits others ↔
    (limits.envelope < Greeting.early chunks ↔ limits.envelope < Greeting.early others)
  -- A line within the limit, or without an end, is taken alike.
  fits : GreetingFits limits.envelope chunks.flatten →
    greeting? connection limits chunks = greeting? connection limits others
  -- A line that is too long is let in where the limit is not overrun early.
  given : ∀ payload, greeting? connection limits chunks = some (.given payload) ↔
    Greeting.early chunks ≤ limits.envelope ∧ 10 ∈ chunks.flatten ∧
      .ofLine connection (chunks.flatten.takeWhile (· ≠ 10)) = Greeting.given payload

/-- Two ways to cut a stream greet alike, unless just one of them overruns the limit early. -/
theorem greeting_cut (connection : String) (limits : Limits) {chunks others : List Bytes}
    (same : chunks.flatten = others.flatten) : Greets connection limits chunks others := by
  have outcome := greeting?_eq connection limits chunks
  have alike : greeting? connection limits chunks = greeting? connection limits others ↔
      (limits.envelope < Greeting.early chunks ↔ limits.envelope < Greeting.early others) := by
    rw [outcome, greeting?_eq, ← same, Option.some_inj]
    by_cases ended : 10 ∈ chunks.flatten
    · exact Greeting.verdict_eq_iff _ _ ended
    · rw [Greeting.early_of_free ended, Greeting.early_of_free (same ▸ ended), same]
      exact iff_of_true rfl Iff.rfl
  refine ⟨outcome, alike, fun fits => alike.mpr ?_, fun payload => ?_⟩
  · by_cases ended : 10 ∈ chunks.flatten
    · have short := greetingFits_iff.mp fits ended
      have first := Greeting.early_le chunks
      have second := Greeting.early_le others
      rw [← same] at second
      omega
    · rw [Greeting.early_of_free ended, Greeting.early_of_free (same ▸ ended), same]
  · rw [outcome, Option.some_inj]
    exact Greeting.verdict_eq_given

/-- A line that fits is taken alike, though its end comes with it in one cut and behind it
in the other. -/
theorem greeting_cut_twice :
    let bytes (text : String) : Bytes := Utf8.encode text.toList
    let chunks := ["he", "y\r", "\n$ "].map bytes
    let others := ["hey\r\n", "$ "].map bytes
    chunks.flatten = others.flatten ∧
      greeting? "c" ⟨4, 8⟩ chunks = some (.given "hey c") ∧
      Greets "c" ⟨4, 8⟩ chunks others :=
  ⟨by decide +kernel, by decide +kernel, greeting_cut "c" ⟨4, 8⟩ (by decide +kernel)⟩

/-- A line of five bytes against a limit of four: whole with its end it is let in,
and with its end behind it refused. -/
theorem not_greeting_cut :
    ¬∀ (connection : String) (limits : Limits) (chunks others : List Bytes),
      1 ≤ limits.envelope → chunks.flatten = others.flatten →
      greeting? connection limits chunks = greeting? connection limits others ∧
        ∀ payload, greeting? connection limits chunks = some (.given payload) →
          GreetingFits limits.envelope chunks.flatten := by
  intro claim
  have told := claim "c" ⟨4, 8⟩ [Utf8.encode "hello\n".toList]
    [Utf8.encode "hello".toList, Utf8.encode "\n".toList] (by decide) (by decide +kernel)
  exact absurd told.1 (by decide +kernel)

end Decoder

end TerminalFeed
