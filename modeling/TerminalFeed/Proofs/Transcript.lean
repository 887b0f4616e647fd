import TerminalFeed.Proofs.Delivery

/-!
What is written is what is told. Sessions, terminations and plain bytes, one behind the
other and cut anywhere, come out of a decoder that stands in the ground state as the
frames they were written for, and it stands there again.
-/

namespace TerminalFeed

open Framing

structure Letter where
  code : UInt16
  text : String

namespace Letter

def payload (l : Letter) : String := ":" ++ l.text

def encode (l : Letter) : Bytes := Envelope.encode l.code l.payload

structure Sendable (l : Letter) (limit : Nat) : Prop where
  remote : l.code = frameCode ∨ l.code = controlCode
  noEsc : '\x1b' ∉ l.text.toList
  noBel : '\x07' ∉ l.text.toList
  fits : (Utf8.encode l.payload.toList).length ≤ limit

instance decidableSendable (l : Letter) (limit : Nat) : Decidable (l.Sendable limit) :=
  decidable_of_iff
    ((l.code = frameCode ∨ l.code = controlCode) ∧ '\x1b' ∉ l.text.toList ∧
      '\x07' ∉ l.text.toList ∧ (Utf8.encode l.payload.toList).length ≤ limit)
    ⟨fun ⟨remote, noEsc, noBel, fits⟩ => ⟨remote, noEsc, noBel, fits⟩,
      fun ⟨remote, noEsc, noBel, fits⟩ => ⟨remote, noEsc, noBel, fits⟩⟩

variable {l : Letter} {limit : Nat}

theorem encode_payload (l : Letter) :
    Utf8.encode l.payload.toList = colon :: Utf8.encode l.text.toList := by
  rw [payload, String.toList_append, Utf8.encode_append]
  rfl

theorem text_payload (l : Letter) (code : Option UInt16) (length : Nat) :
    Envelope.text ⟨code, Utf8.encode l.payload.toList, length⟩ = l.text := by
  rw [text_encode_eq, payload, String.toList_append]
  exact String.ofList_toList

theorem Sendable.plain (sendable : l.Sendable limit) :
    esc ∉ Utf8.encode l.payload.toList ∧ bel ∉ Utf8.encode l.payload.toList := by
  rw [encode_payload, List.mem_cons, List.mem_cons, not_or, not_or]
  refine ⟨⟨by decide, ?_⟩, ⟨by decide, ?_⟩⟩
  · intro member
    exact sendable.noEsc (Utf8.mem_of_mem_encode member (by decide))
  · intro member
    exact sendable.noBel (Utf8.mem_of_mem_encode member (by decide))

theorem Sendable.length_codeDigits (sendable : l.Sendable limit) :
    (codeDigits l.code).length = 3 := by
  rcases sendable.remote with same | same <;> rw [same] <;> decide

theorem Sendable.room (sendable : l.Sendable limit) {word rest : String}
    (parts : l.text = word ++ rest) (long : 4 ≤ (Utf8.encode word.toList).length) :
    5 ≤ limit := by
  have fits := sendable.fits
  rw [encode_payload, parts, String.toList_append, Utf8.encode_append, List.length_cons,
    List.length_append] at fits
  omega

theorem Sendable.transition_eq (rules : Rules) (sendable : l.Sendable rules.limits.envelope)
    {state : State} (greeted : state ≠ .initial) (more : Bytes) :
    transition rules state (l.encode ++ more) =
      answer rules state (l.encode ++ more)
        (.envelope ⟨some l.code, Utf8.encode l.payload.toList, l.encode.length⟩) := by
  obtain ⟨noEsc, noBel⟩ := sendable.plain
  rw [transition_eq_answer rules _ greeted, encode, scan_encode noEsc noBel sendable.fits more]

theorem Sendable.isRemote (sendable : l.Sendable limit) (payload : Bytes) (length : Nat) :
    Envelope.isRemote ⟨some l.code, payload, length⟩ := by
  rcases sendable.remote with same | same <;> simp [Envelope.isRemote, same]

theorem Sendable.transition_ground (rules : Rules) (sendable : l.Sendable rules.limits.envelope)
    (more : Bytes) :
    transition rules .ground (l.encode ++ more) =
      accept rules l.code l.text l.encode.length := by
  rw [sendable.transition_eq rules (by simp)]
  refine (if_pos (sendable.isRemote _ _)).trans ?_
  rw [Option.getD_some, text_payload]

theorem Sendable.transition_line (rules : Rules) (sendable : l.Sendable rules.limits.envelope)
    {session : String} (goesOn : endStatus? session l.text = none) (more : Bytes) :
    transition rules (.body session) (l.encode ++ more) =
      ⟨.body session, l.encode.length, .frame (.sessionLine session l.text)⟩ := by
  rw [sendable.transition_eq rules (by simp)]
  refine (if_pos (sendable.isRemote _ _)).trans ?_
  simp only [text_payload, goesOn]

theorem Sendable.transition_end (rules : Rules) (sendable : l.Sendable rules.limits.envelope)
    {session status : String} (ends : endStatus? session l.text = some status) (more : Bytes) :
    transition rules (.body session) (l.encode ++ more) =
      ⟨.ground, l.encode.length, .frame (.sessionEnd session status)⟩ := by
  rw [sendable.transition_eq rules (by simp)]
  refine (if_pos (sendable.isRemote _ _)).trans ?_
  simp only [text_payload, ends]

end Letter

theorem NumbersFit.append_plain {limit : Nat} {plain more : Bytes} (free : esc ∉ plain)
    (fits : NumbersFit limit more) : NumbersFit limit (plain ++ more) := by
  induction plain with
  | nil => exact fits
  | cons b rest ih =>
    rw [List.mem_cons, not_or] at free
    apply numbersFit_cons_iff.mpr
    constructor
    · intro behind same
      exact absurd (List.cons.inj same).1.symm free.1
    · exact ih free.2

theorem Letter.Sendable.numbersFit {l : Letter} {limit : Nat} (sendable : l.Sendable limit)
    (room : 5 ≤ limit) {more : Bytes} (fits : NumbersFit limit more) :
    NumbersFit limit (l.encode ++ more) := by
  obtain ⟨noEsc, -⟩ := sendable.plain
  have all := all_codeDigits l.code
  have free : esc ∉
      bracket :: (codeDigits l.code ++ semicolon :: Utf8.encode l.payload.toList) := by
    simp only [List.mem_cons, List.mem_append, not_or]
    exact ⟨by decide, esc_not_mem_digits all, by decide, noEsc⟩
  have whole : l.encode ++ more = esc :: (bracket ::
      (codeDigits l.code ++ semicolon :: Utf8.encode l.payload.toList) ++
        esc :: backslash :: more) := by
    rw [encode, encode_eq]
    simp
  have terminator : NumbersFit limit (esc :: backslash :: more) := by
    apply numbersFit_cons_iff.mpr
    constructor
    · intro behind same
      exact absurd (List.cons.inj (List.cons.inj same).2).1 (by decide)
    · have free : esc ∉ [backslash] := by decide
      exact fits.append_plain free
  rw [whole]
  apply numbersFit_cons_iff.mpr
  constructor
  · intro behind same
    have digits : behind = codeDigits l.code ++ semicolon ::
        (Utf8.encode l.payload.toList ++ esc :: backslash :: more) := by
      simpa using same.symm
    have stop : ¬isDigitByte semicolon := by decide
    rw [digits, List.takeWhile_append_of_pos (List.all_eq_true.mp all),
      List.takeWhile_cons_of_neg stop, List.append_nil, sendable.length_codeDigits]
    exact room
  · exact terminator.append_plain free

theorem Decoder.next_of_reading {d : Decoder} (sound : d.Sound)
    (unreported : d.detachReported = false) {next : State} {f : Frame} {n : Nat}
    (found : d.reading = ⟨{ d.parser with state := next }, .frame f, n, none⟩) :
    ∃ e, d.next = (e, some f) ∧ e.Sound ∧ e.detachReported = false ∧
      e.parser = { d.parser with state := next } ∧
      e.reading = e.parser.read next 0 (d.unread.drop n) ∧ e.unread = d.unread.drop n := by
  have step := next_eq_reading sound unreported
  rw [found] at step
  have left := unread_accept d ⟨{ d.parser with state := next }, .frame f, n, none⟩
  have sound' := sound.next
  rw [step] at sound'
  refine ⟨(d.accept ⟨{ d.parser with state := next }, .frame f, n, none⟩).1, step, sound',
    unreported, rfl, ?_, left⟩
  rw [reading, left]
  rfl

/-- Bytes that are read to frames from a state, and end in the ground state. -/
inductive Reads (rules : Rules) : State → Bytes → List Frame → Prop
  | done : Reads rules .ground [] []
  | plain {bytes more : Bytes} {frames : List Frame} (free : esc ∉ bytes)
      (later : Reads rules .ground more frames) : Reads rules .ground (bytes ++ more) frames
  | letter {state next : State} {l : Letter} {more : Bytes} {f : Frame} {frames : List Frame}
      (sendable : l.Sendable rules.limits.envelope) (room : 5 ≤ rules.limits.envelope)
      (tells : transition rules state (l.encode ++ more) = ⟨next, l.encode.length, .frame f⟩)
      (later : Reads rules next more frames) : Reads rules state (l.encode ++ more) (f :: frames)

namespace Reads

variable {rules : Rules} {state : State} {bytes more : Bytes} {frames : List Frame}

theorem numbersFit (reads : Reads rules state bytes frames) :
    NumbersFit rules.limits.envelope bytes := by
  induction reads with
  | done => exact numbersFit_nil _
  | plain free later ih => exact ih.append_plain free
  | letter sendable room tells later ih => exact sendable.numbersFit room ih

theorem drains (reads : Reads rules state bytes frames) {d : Decoder} (sound : d.Sound)
    (unreported : d.detachReported = false) (same : d.parser.rules = rules)
    (committed : d.parser.state = state) {offset : Nat}
    (stands : d.reading = d.parser.read state offset bytes)
    (left : d.unread.drop offset = bytes) :
    ∃ last, d.Drains frames last ∧ last.parser.state = .ground ∧ last.hasDetached = false := by
  induction reads generalizing d offset with
  | done =>
    have empty : d.next = ({ d with checkpoint := some ⟨.ground, offset⟩ }, none) := by
      rw [Decoder.next_eq_reading sound unreported, stands, Parser.read_nil]
      rfl
    refine ⟨_, .done empty, committed, ?_⟩
    have attached := sound.attached unreported
    simp [Decoder.hasDetached, Parser.hasDetached, attached]
  | @plain bytes more frames free later ih =>
    -- No call ends behind plain bytes: it reads on, so the offset moves and not the decoder.
    by_cases some : bytes = []
    · subst some
      exact ih sound unreported same committed stands left
    · have greeted : State.ground ≠ .initial := by simp
      have step : transition d.parser.rules .ground bytes = ⟨.ground, bytes.length, .progress⟩ :=
        transition_plain_alone d.parser.rules greeted some free
      have passed : d.reading = d.parser.read .ground (offset + bytes.length) more := by
        rw [stands, Parser.read_plain offset more greeted some free (by rw [step]), step]
      refine ih sound unreported same committed passed ?_
      rw [← List.drop_drop, left, List.drop_left]
  | @letter state next l more f frames sendable room tells later ih =>
    have found : d.reading =
        ⟨{ d.parser with state := next }, .frame f, offset + l.encode.length, none⟩ := by
      rw [stands, Parser.read_eq, same, tells]
      rfl
    obtain ⟨e, step, sound', unreported', parser, stands', left'⟩ :=
      Decoder.next_of_reading sound unreported found
    have behind : d.unread.drop (offset + l.encode.length) = more := by
      rw [← List.drop_drop, left, List.drop_left]
    rw [behind] at stands' left'
    obtain ⟨last, drains, final⟩ :=
      ih sound' unreported' (by rw [parser, same]) (by rw [parser]) stands' left'
    exact ⟨last, .frame step drains, final⟩

end Reads

/-! What is written, passage by passage. -/

theorem endStatus?_end {id : String} (word : ' ' ∉ id.toList) (status : String) :
    endStatus? id ("end " ++ id ++ " " ++ status) = some status := by
  have parts : ("end " ++ id ++ " " ++ status).toList =
      "end".toList ++ ' ' :: (id.toList ++ ' ' :: status.toList) := by simp
  have apart : ∀ c ∈ id.toList, (c == ' ') = false := by
    intro c member
    exact beq_eq_false_iff_ne.mpr fun same => word (same ▸ member)
  have joined : [' '].intercalate (status.toList.splitOnP (· == ' ')) = status.toList :=
    List.intercalate_splitOn ' '
  rw [endStatus?, parts, List.splitOnP_append_cons_of_forall_mem (by simp) ' ' rfl,
    List.splitOnP_append_cons_of_forall_mem apart ' ' rfl]
  dsimp only
  rw [if_pos ⟨rfl, rfl⟩, joined, String.ofList_toList]

theorem endStatus?_line {id line : String} (whole : line ≠ "end " ++ id)
    (front : ¬("end " ++ id ++ " ").toList <+: line.toList) : endStatus? id line = none := by
  have joined : [' '].intercalate (line.toList.splitOnP (· == ' ')) = line.toList :=
    List.intercalate_splitOn ' '
  unfold endStatus?
  split
  · rename_i word name status parts
    rw [if_neg]
    rintro ⟨rfl, rfl⟩
    rw [parts] at joined
    cases status with
    | nil =>
      apply whole
      apply String.toList_inj.mp
      rw [← joined]
      simp
    | cons first others =>
      apply front
      rw [← joined]
      simp
  · rfl

inductive Passage where
  | session (id : String) (opener : UInt16) (lines : List Letter) (closer : UInt16)
      (status : String)
  | terminate (pid exitCode : Int32)
  | plain (bytes : Bytes)

namespace Passage

def opening (id : String) (code : UInt16) : Letter := ⟨code, "begin " ++ id⟩

def closing (id : String) (code : UInt16) (status : String) : Letter :=
  ⟨code, "end " ++ id ++ " " ++ status⟩

def termination (pid exitCode : Int32) : Letter :=
  ⟨frameCode, "%terminate " ++ number pid ++ " " ++ number exitCode⟩
where number (n : Int32) : String := String.ofList (Decimal.printInt n.toInt)

def encode : Passage → Bytes
  | .session id opener lines closer status =>
      (opening id opener).encode ++ lines.flatMap Letter.encode ++
        (closing id closer status).encode
  | .terminate pid exitCode => (termination pid exitCode).encode
  | .plain bytes => bytes

def frames : Passage → List Frame
  | .session id _ lines _ status => (Phrase.session id (lines.map Letter.text) status).frames
  | .terminate pid exitCode => (Phrase.terminate pid exitCode).frames
  | .plain _ => []

/-- What can be sent: an identifier is one word, no line of a session reads as its end,
plain bytes open no envelope, and no envelope is too long. -/
inductive Sendable (limit : Nat) : Passage → Prop
  | session {id : String} {opener closer : UInt16} {lines : List Letter} {status : String}
      (named : id ≠ "") (word : ∀ c ∈ id.toList, Text.isBlank c = false)
      (opens : (opening id opener).Sendable limit)
      (inside : ∀ line ∈ lines, line.Sendable limit ∧ line.text ≠ "end " ++ id ∧
        ¬("end " ++ id ++ " ").toList <+: line.text.toList)
      (closes : (closing id closer status).Sendable limit) :
      Sendable limit (.session id opener lines closer status)
  | terminate {pid exitCode : Int32}
      (fits : (Utf8.encode (termination pid exitCode).payload.toList).length ≤ limit) :
      Sendable limit (.terminate pid exitCode)
  | plain {bytes : Bytes} (free : esc ∉ bytes) : Sendable limit (.plain bytes)

theorem sendable_termination {limit : Nat} {pid exitCode : Int32}
    (fits : (Utf8.encode (termination pid exitCode).payload.toList).length ≤ limit) :
    (termination pid exitCode).Sendable limit := by
  have printed : ∀ c ∈ (termination pid exitCode).text.toList, 32 ≤ c.toNat := by
    intro c member
    have word : ∀ c ∈ "%terminate ".toList, 32 ≤ c.toNat := by simp
    simp only [termination, termination.number, String.toList_append, String.toList_ofList,
      List.mem_append] at member
    rcases member with ((front | number) | space) | number
    · exact word c front
    · exact le_of_mem_printInt number
    · rw [List.mem_singleton.mp space]
      decide
    · exact le_of_mem_printInt number
  constructor
  · exact .inl rfl
  · exact fun member => absurd (printed _ member) (by decide)
  · exact fun member => absurd (printed _ member) (by decide)
  · exact fits

variable {rules : Rules} {frames : List Frame} {more : Bytes}

theorem transition_opening {id : String} {code : UInt16} (named : id ≠ "")
    (word : ∀ c ∈ id.toList, Text.isBlank c = false)
    (opens : (opening id code).Sendable rules.limits.envelope) (more : Bytes) :
    transition rules .ground ((opening id code).encode ++ more) =
      ⟨.body id, (opening id code).encode.length, .frame (.sessionBegin id)⟩ := by
  have words : Text.words ("begin " ++ id).toList = ["begin".toList, id.toList] := by
    have parts : ("begin " ++ id).toList = "begin".toList ++ ' ' :: id.toList := by simp
    rw [parts, Text.words_append_cons (by decide) (by simp [Text.isBlank]) (by decide),
      Text.words_of_word (fun empty => named (String.toList_inj.mp empty)) word]
  rw [opens.transition_ground rules, opening, accept]
  dsimp only
  rw [words]
  simp

theorem transition_termination {pid exitCode : Int32}
    (sends : (termination pid exitCode).Sendable rules.limits.envelope) (more : Bytes) :
    transition rules .ground ((termination pid exitCode).encode ++ more) =
      ⟨.ground, (termination pid exitCode).encode.length, .frame (.terminate pid exitCode)⟩ := by
  have words : Text.words (termination pid exitCode).text.toList =
      ["%terminate".toList, Decimal.printInt pid.toInt, Decimal.printInt exitCode.toInt] := by
    have parts : (termination pid exitCode).text.toList = "%terminate".toList ++
        ' ' :: (Decimal.printInt pid.toInt ++ ' ' :: Decimal.printInt exitCode.toInt) := by
      simp [termination, termination.number]
    have space : Text.isBlank ' ' := by decide
    rw [parts, Text.words_append_cons (by decide) (by simp [Text.isBlank]) space,
      Text.words_append_cons (Decimal.printInt_ne_nil _) (fun c => isBlank_of_mem_printInt) space,
      Text.words_of_word (Decimal.printInt_ne_nil _) fun c => isBlank_of_mem_printInt]
  rw [sends.transition_ground rules, accept]
  dsimp only
  rw [words]
  simp [termination, terminate?, Decimal.int32?_printInt, controlCode, frameCode]

theorem reads_body {id : String} {lines : List Letter} {closer : UInt16} {status : String}
    (word : ' ' ∉ id.toList) (room : 5 ≤ rules.limits.envelope)
    (inside : ∀ line ∈ lines, line.Sendable rules.limits.envelope ∧ line.text ≠ "end " ++ id ∧
      ¬("end " ++ id ++ " ").toList <+: line.text.toList)
    (closes : (closing id closer status).Sendable rules.limits.envelope)
    (later : Reads rules .ground more frames) :
    Reads rules (.body id)
      (lines.flatMap Letter.encode ++ ((closing id closer status).encode ++ more))
      ((lines.map Letter.text).map (.sessionLine id) ++ .sessionEnd id status :: frames) := by
  induction lines with
  | nil =>
    exact .letter closes room (closes.transition_end rules (endStatus?_end word status) more)
      later
  | cons line rest ih =>
    obtain ⟨⟨sends, whole, front⟩, others⟩ := List.forall_mem_cons.mp inside
    rw [List.flatMap_cons, List.append_assoc]
    exact .letter sends room (sends.transition_line rules (endStatus?_line whole front) _)
      (ih others)

theorem Sendable.reads {passage : Passage} (sendable : passage.Sendable rules.limits.envelope)
    (later : Reads rules .ground more frames) :
    Reads rules .ground (passage.encode ++ more) (passage.frames ++ frames) := by
  cases sendable with
  | plain free => exact .plain free later
  | @terminate pid exitCode fits =>
    have sends := sendable_termination fits
    have parts : (termination pid exitCode).text = "%terminate " ++
        (termination.number pid ++ " " ++ termination.number exitCode) := by
      simp only [termination, String.append_assoc]
    exact .letter sends (sends.room parts (by decide)) (transition_termination sends more) later
  | @session id opener closer lines status named word opens inside closes =>
    have room : 5 ≤ rules.limits.envelope := opens.room rfl (by decide)
    have spaced : ' ' ∉ id.toList := fun member => absurd (word _ member) (by decide)
    have body := reads_body spaced room inside closes later
    have session := Reads.letter opens room (transition_opening named word opens _) body
    simpa [encode, Passage.frames, Phrase.frames, sessionSoFar] using session

end Passage

theorem reads_passages {rules : Rules} {passages : List Passage}
    (sendable : ∀ passage ∈ passages, passage.Sendable rules.limits.envelope) :
    Reads rules .ground (passages.flatMap Passage.encode) (passages.flatMap Passage.frames) := by
  induction passages with
  | nil => exact .done
  | cons passage rest ih =>
    obtain ⟨first, others⟩ := List.forall_mem_cons.mp sendable
    rw [List.flatMap_cons, List.flatMap_cons]
    exact first.reads (ih others)

namespace Decoder

theorem feed_drains {d : Decoder} (sound : d.Sound) {chunk : Bytes} {rest : List Bytes}
    (fits : Fits d (chunk :: rest).flatten) :
    ∃ last, Drains (d.push (chunk :: rest).flatten) (d.feed (chunk :: rest)).2 last ∧
      Alike (d.feed (chunk :: rest)).1 last := by
  rw [List.flatten_cons] at fits ⊢
  have first := sound.push chunk
  have drains := drains_drain first
  obtain ⟨last, all, alike⟩ :=
    drains.feed (.refl _) first (drains.sound first) (fits.push sound)
  obtain ⟨last', all', alike'⟩ := all.alike (push_push_alike sound chunk rest.flatten)
  exact ⟨last', all', alike.trans alike'⟩

theorem feed_reads {d : Decoder} {chunks : List Bytes} {frames : List Frame}
    (reads : Reads d.parser.rules .ground chunks.flatten frames) (sound : d.Sound)
    (unreported : d.detachReported = false) (ground : d.parser.state = .ground)
    (start : d.outset = (.ground, 0)) (unread : d.unread = []) :
    (d.feed chunks).2 = frames ∧
      (d.feed chunks).1.parser.state = .ground ∧ (d.feed chunks).1.hasDetached = false := by
  cases chunks with
  | nil =>
    have stands : d.reading = d.parser.read .ground 0 [] := by
      rw [reading, start, unread]
      rfl
    obtain ⟨last, drains, -⟩ := reads.drains sound unreported rfl ground stands unread
    obtain ⟨other, nothing, -⟩ := Reads.done.drains sound unreported rfl ground stands unread
    have attached := sound.attached unreported
    refine ⟨(nothing.unique drains).1, ground, ?_⟩
    simp [feed, hasDetached, Parser.hasDetached, attached]
  | cons chunk rest =>
    have fits : Fits d (chunk :: rest).flatten := by
      constructor
      · rw [unread, List.nil_append]
        exact reads.numbersFit
      · rw [start]
        intro initial
        cases initial
    obtain ⟨last, drains, alike⟩ := feed_drains sound fits
    generalize (chunk :: rest).flatten = stream at reads drains
    have left : (d.push stream).unread = stream := by
      rw [unread_push d stream sound.position, unread, List.nil_append]
    have stands : (d.push stream).reading = (d.push stream).parser.read .ground 0 stream := by
      rw [reading, outset_push sound, start, left]
      rfl
    obtain ⟨final, drains', state, attached⟩ :=
      reads.drains (sound.push stream) (by rw [detachReported_push, unreported])
        (by rw [parser_push]) (by rw [parser_push, ground]) stands left
    obtain ⟨same, rfl⟩ := drains.unique drains'
    rw [hasDetached, alike.parser]
    exact ⟨same, state, attached⟩

/-- However it is cut, what is written comes out as the frames it was written for. -/
theorem feed_passages {d : Decoder} {passages : List Passage} {chunks : List Bytes}
    (reachable : d.Reachable) (ground : d.parser.state = .ground) (empty : d.available = 0)
    (attached : d.hasDetached = false)
    (sendable : ∀ passage ∈ passages, passage.Sendable d.parser.rules.limits.envelope)
    (sent : chunks.flatten = passages.flatMap Passage.encode) :
    (d.feed chunks).2 = passages.flatMap Passage.frames ∧
      (d.feed chunks).1.parser.state = .ground ∧ (d.feed chunks).1.hasDetached = false := by
  obtain ⟨recovering, connection, limits, calls, rfl⟩ := reachable
  have spoken := (spoken_start recovering connection limits).calls calls
  obtain ⟨start, unreported, unread⟩ := spoken.rests ground empty attached
  have reads := reads_passages sendable
  rw [← sent] at reads
  exact feed_reads reads spoken.toSound unreported ground start unread

/-- A line that reads like a header and one that ends another session are lines like any
other; envelopes, codes and terminators are cut. -/
theorem feed_passages_in_pieces :
    let bytes (text : String) : Bytes := Utf8.encode text.toList
    let d := ((start true "c" ⟨16, 0⟩).calls []).1
    let passages : List Passage := [.plain (bytes "$ "),
      .session "X" frameCode [⟨controlCode, "end Y 0"⟩, ⟨frameCode, ":begin X"⟩, ⟨frameCode, ""⟩]
        controlCode " ok  ", .plain [], .terminate (-5) 9, .plain (bytes "!")]
    let chunks := ["$", " \x1b]13", "4;:begin X\x1b", "\\\x1b]135;:end Y 0\x1b\\\x1b]134;:",
      ":begin X\x1b\\\x1b]134;:\x1b\\\x1b]135;:end X", "  ok  \x1b\\",
      "\x1b]134;:%terminate -", "5 9\x1b", "\\!"].map bytes
    chunks.flatten = passages.flatMap Passage.encode ∧
      passages.flatMap Passage.frames = [.sessionBegin "X", .sessionLine "X" "end Y 0",
        .sessionLine "X" ":begin X", .sessionLine "X" "", .sessionEnd "X" " ok  ",
        .terminate (-5) 9] ∧
      (d.feed chunks).2 = passages.flatMap Passage.frames ∧
        (d.feed chunks).1.parser.state = .ground ∧ (d.feed chunks).1.hasDetached = false := by
  intro bytes d passages chunks
  have sendable : ∀ passage ∈ passages, passage.Sendable 16 := by
    have session : (Passage.session "X" frameCode [⟨controlCode, "end Y 0"⟩,
        ⟨frameCode, ":begin X"⟩, ⟨frameCode, ""⟩] controlCode " ok  ").Sendable 16 := by
      refine .session (by decide) (by simp [Text.isBlank]) (by decide +kernel) ?_
        (by decide +kernel)
      simp only [List.forall_mem_cons]
      exact ⟨⟨by decide +kernel, by decide, by decide⟩, ⟨by decide +kernel, by decide, by decide⟩,
        ⟨by decide +kernel, by decide, by decide⟩, List.forall_mem_nil _⟩
    simp only [passages, List.forall_mem_cons]
    exact ⟨.plain (by decide), session, .plain (by decide), .terminate (by decide +kernel),
      .plain (by decide), List.forall_mem_nil _⟩
  have sent : chunks.flatten = passages.flatMap Passage.encode := by decide +kernel
  exact ⟨sent, rfl, feed_passages ⟨true, "c", ⟨16, 0⟩, [], rfl⟩ rfl rfl rfl sendable sent⟩

/-- A decoder that has detached stands in the ground state too, and tells nothing. -/
theorem not_feed_passages :
    ¬∀ (d : Decoder) (passages : List Passage) (chunks : List Bytes),
      d.Reachable → d.parser.state = .ground → d.available = 0 →
      (∀ passage ∈ passages, passage.Sendable d.parser.rules.limits.envelope) →
      chunks.flatten = passages.flatMap Passage.encode →
      (d.feed chunks).2 = passages.flatMap Passage.frames ∧
        (d.feed chunks).1.parser.state = .ground ∧ (d.feed chunks).1.hasDetached = false := by
  intro claim
  have sendable : ∀ passage ∈ [Passage.terminate 3 0], passage.Sendable 16 :=
    List.forall_mem_singleton.mpr (.terminate (by decide +kernel))
  have told := claim
    ((start true "c" ⟨16, 8⟩).calls
      [.push (Utf8.encode "\x1b]135;unhook\x07".toList), .next]).1
    [.terminate 3 0] [(Passage.terminate 3 0).encode] ⟨true, "c", ⟨16, 8⟩, _, rfl⟩
    (by decide +kernel) (by decide +kernel) sendable rfl
  exact absurd told.1 (by decide +kernel)

end Decoder

end TerminalFeed
