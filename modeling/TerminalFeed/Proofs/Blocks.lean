import TerminalFeed.Proofs.Encoding
import TerminalFeed.Proofs.Transitions

/-!
An output block as it is sent, and the steps over it. Bytes of its body may be
escapes and sequences of any kind, whole or not. No step over them goes past
the body: an escape that opens the end of the block is never taken for a part
of what stands before it.
-/

namespace TerminalFeed

open Framing

namespace OutputBlock

def header (block : OutputBlock) : String :=
  "%output " ++ block.id ++ " " ++ number block.pid ++ " " ++ number block.channel ++ " "
    ++ number block.depth
where number (n : Int32) : String := String.ofList (Decimal.printInt n.toInt)

def footer (block : OutputBlock) : String := "%end " ++ block.id

def encode (block : OutputBlock) : Bytes :=
  Envelope.encode frameCode block.header ++ block.raw.toList
    ++ Envelope.encode frameCode block.footer

/-- Wherever a body opens an envelope of a remote code, that envelope is complete
within the body, and does not end the block. -/
def Harmless (block : OutputBlock) (limit : Nat) (body : Bytes) : Prop :=
  ∀ (digits rest : Bytes) (code : UInt16),
    esc :: bracket :: (digits ++ semicolon :: rest) <:+ body →
    Decimal.natural? (digits.map fun b => Char.ofNat b.toNat) = some code.toNat →
    code = frameCode ∨ code = controlCode →
    ∃ payload close behind : Bytes, rest = payload ++ close ++ behind ∧
      payload.length ≤ limit ∧ esc ∉ payload ∧ bel ∉ payload ∧ Scan.Closes close ∧
      block.isEndedBy
        ⟨some code, payload, digits.length + 3 + payload.length + close.length⟩ = false

theorem Harmless.of_suffix {block : OutputBlock} {limit : Nat} {body left : Bytes}
    (harmless : block.Harmless limit body) (suffix : left <:+ body) :
    block.Harmless limit left := by
  intro digits rest code inside
  exact harmless digits rest code (inside.trans suffix)

/-- What can be sent as a block: its identifier is one word, and its envelopes
are not too long. -/
structure Sendable (block : OutputBlock) (limit : Nat) : Prop where
  named : block.id ≠ ""
  word : ∀ c ∈ block.id.toList, Text.isBlank c = false
  noEsc : '\x1b' ∉ block.id.toList
  noBel : '\x07' ∉ block.id.toList
  header : (Utf8.encode block.header.toList).length ≤ limit
  footer : (Utf8.encode block.footer.toList).length ≤ limit
  body : block.Harmless limit block.raw.toList

end OutputBlock

theorem exists_append_of_prefix {front rest body tail : Bytes} (free : esc ∉ front)
    (ahead : front ++ rest <+: body ++ esc :: tail) :
    ∃ left, body = front ++ left ∧ rest <+: left ++ esc :: tail := by
  induction front generalizing body with
  | nil => exact ⟨body, rfl, ahead⟩
  | cons b front ih =>
    rw [List.mem_cons, not_or] at free
    cases body with
    | nil => exact absurd (List.cons_prefix_cons.mp ahead).1.symm free.1
    | cons c body =>
      obtain ⟨same, ahead'⟩ := List.cons_prefix_cons.mp ahead
      obtain ⟨left, parts, later⟩ := ih free.2 ahead'
      exact ⟨left, by rw [parts, same]; rfl, later⟩

theorem not_isDigitByte_esc : isDigitByte esc = false := by decide

theorem esc_not_mem_digits {digits : Bytes} (all : digits.all isDigitByte) : esc ∉ digits := by
  intro member
  have digit := List.all_eq_true.mp all esc member
  rw [not_isDigitByte_esc] at digit
  cases digit

namespace Scan

variable {limit count : Nat} {body input tail : Bytes}

theorem ending_inside (ahead : input <+: body ++ esc :: bracket :: tail) :
    (ending limit count input).Within count body.length := by
  fun_induction ending limit count input generalizing body with
  | case1 => trivial
  | case2 count rest =>
    cases body with
    | nil => exact absurd (List.cons_prefix_cons.mp ahead).1 (by decide)
    | cons b body => simp only [Ending.Within, List.length_cons]; omega
  | case3 => trivial
  | case4 count rest text =>
    -- A backslash closes here, where the opening has a bracket.
    cases body with
    | nil =>
      have second := (List.cons_prefix_cons.mp (List.cons_prefix_cons.mp ahead).2).1
      exact absurd second (by decide)
    | cons b body =>
      cases body with
      | nil =>
        have second := (List.cons_prefix_cons.mp (List.cons_prefix_cons.mp ahead).2).1
        exact absurd second (by decide)
      | cons c body => simp only [Ending.Within, List.length_cons]; omega
  | case5 count next rest void text => exact ⟨Nat.le_refl _, Nat.le_add_right _ _⟩
  | case6 count b rest text payload full => exact ⟨Nat.le_refl _, Nat.le_add_right _ _⟩
  | case7 count b rest text payload room ih =>
    cases body with
    | nil => exact absurd (List.cons_prefix_cons.mp ahead).1 payload
    | cons c body =>
      exact (ih (List.cons_prefix_cons.mp ahead).2).succ

theorem ending_decided (limit count : Nat) (body tail : Bytes) :
    ending limit count (body ++ esc :: bracket :: tail) ≠ .unfinished := by
  induction body generalizing count with
  | nil => simp [ending, esc, bel, bracket, backslash]
  | cons b body ih =>
    have more := ih (count + 1)
    intro unfinished
    rw [List.cons_append, ending.eq_def] at unfinished
    dsimp only at unfinished
    split at unfinished
    · cases unfinished
    split at unfinished
    · split at unfinished
      · rename_i empty
        simp at empty
      · split at unfinished <;> cases unfinished
    split at unfinished
    · cases unfinished
    · exact more unfinished

theorem readCode_eq_some {digits : Bytes} {code : UInt16} (read : readCode digits = some code) :
    Decimal.natural? (digits.map fun b => Char.ofNat b.toNat) = some code.toNat := by
  rw [readCode, Decimal.atMost?_eq] at read
  obtain ⟨n, kept, same⟩ := Option.map_eq_some_iff.mp read
  obtain ⟨value, small⟩ := Option.filter_eq_some_iff.mp kept
  have small := of_decide_eq_true small
  rw [value, ← same, UInt16.toNat_ofNat', Nat.mod_eq_of_lt (by omega)]

end Scan

namespace OutputBlock

variable {block : OutputBlock} {limit : Nat} {body input tail : Bytes}

/-- An answer that passes over bytes of a body, and no more of them than there are. -/
structure Passes (block : OutputBlock) (length : Nat) (found : Scan) : Prop where
  within : found.Within length
  bounded : found ≠ .tooLarge
  goesOn : ∀ e, found = .envelope e → block.isEndedBy e = false

theorem passes_incomplete (block : OutputBlock) (length : Nat) :
    block.Passes length .incomplete :=
  ⟨trivial, by simp, by simp⟩

theorem passes_other (block : OutputBlock) {length n : Nat} (some : 0 < n) (inside : n ≤ length) :
    block.Passes length (.other n) :=
  ⟨⟨some, inside⟩, by simp, by simp⟩

/-- A sequence of a foreign code may be cut short by an opening, and never reaches
past it. -/
theorem passes_foreign {code : Option UInt16} {start : Nat} (opened : 0 < start)
    (foreign : code ≠ some frameCode ∧ code ≠ some controlCode)
    (ahead : input <+: body ++ esc :: bracket :: tail) :
    block.Passes (start + body.length) (Scan.payload limit code start input) := by
  refine ⟨Scan.payload_within opened (Scan.ending_inside ahead), ?_, ?_⟩
  · unfold Scan.payload
    split
    · simp
    · simp
    · simp [foreign]
    · simp
  · intro e found
    have same : e.code = code := by
      unfold Scan.payload at found
      split at found
      · cases found
        rfl
      · cases found
      · rw [if_neg (not_or.mpr foreign)] at found
        cases found
      · cases found
    rw [isEndedBy, same, beq_eq_false_iff_ne.mpr foreign.1, Bool.false_and]

theorem passes_remote {digits rest left : Bytes} {code : UInt16}
    (harmless : block.Harmless limit (esc :: bracket :: (digits ++ semicolon :: left)))
    (read : Scan.readCode digits = some code) (remote : code = frameCode ∨ code = controlCode)
    (ahead : rest <+: left ++ esc :: bracket :: tail) :
    block.Passes (digits.length + 3 + left.length)
      (Scan.payload limit (some code) (digits.length + 3) rest) := by
  obtain ⟨payload, close, behind, parts, fits, noEsc, noBel, closes, goesOn⟩ :=
    harmless digits left code List.suffix_rfl (Scan.readCode_eq_some read) remote
  have within : (Scan.payload limit (some code) (digits.length + 3) rest).Within
      (digits.length + 3 + left.length) :=
    Scan.payload_within (by omega) (Scan.ending_inside ahead)
  obtain ⟨later, whole⟩ := ahead
  have closed := Scan.ending_closed noEsc noBel closes
    (by rwa [Nat.zero_add] : 0 + _ ≤ limit) (behind ++ esc :: bracket :: tail)
  rw [← List.append_assoc, ← parts, ← whole] at closed
  -- Either a part of the envelope is all that has come, or it is found as it stands.
  by_cases ended : Scan.ending limit 0 rest = .unfinished
  · rw [Scan.payload, ended]
    exact passes_incomplete block _
  · rw [Scan.ending_append later ended, Nat.zero_add] at closed
    have inside := Scan.ending_within limit 0 rest
    rw [closed] at inside
    have front : rest.take payload.length = payload := by
      have length : payload.length ≤ rest.length := by
        have := inside.2.2
        omega
      rw [← List.take_append_of_le_length length, whole, parts, List.append_assoc,
        List.append_assoc, List.take_left]
    rw [Scan.payload, closed] at within ⊢
    dsimp only at within ⊢
    rw [front] at within ⊢
    refine ⟨within, by simp, ?_⟩
    intro e same
    cases same
    exact goesOn

theorem passes_sequence (harmless : block.Harmless limit (esc :: bracket :: body))
    (ahead : input <+: body ++ esc :: bracket :: tail) :
    block.Passes (body.length + 2) (Scan.sequence limit input) := by
  have parts := List.takeWhile_append_dropWhile (p := isDigitByte) (l := input)
  have all : (input.takeWhile isDigitByte).all isDigitByte := List.all_takeWhile
  rw [Scan.sequence]
  generalize input.takeWhile isDigitByte = digits at parts all ⊢
  have free := esc_not_mem_digits all
  cases behind : input.dropWhile isDigitByte with
  | nil =>
    -- A number that may go on is passed over or waited for, and is all in the body.
    rw [behind] at parts
    obtain ⟨left, same, -⟩ := exists_append_of_prefix free (parts ▸ ahead)
    have length := congrArg List.length same
    rw [List.length_append] at length
    dsimp only
    split
    · exact passes_other block (by omega) (by omega)
    · exact passes_incomplete block _
  | cons b rest =>
    rw [behind] at parts
    dsimp only
    by_cases coded : b = semicolon ∧ digits ≠ []
    · rw [if_pos coded]
      obtain ⟨rfl, -⟩ := coded
      -- The number and its semicolon are in the body, so what is left of it follows them.
      have free' : esc ∉ digits ++ [semicolon] := by
        rw [List.mem_append, not_or]
        exact ⟨free, by decide⟩
      have ahead' : digits ++ [semicolon] ++ rest <+: body ++ esc :: bracket :: tail := by
        rwa [List.append_assoc, List.singleton_append, parts]
      obtain ⟨left, same, ahead''⟩ := exists_append_of_prefix free' ahead'
      rw [List.append_assoc, List.singleton_append] at same
      subst same
      have length : (digits ++ semicolon :: left).length + 2 =
          digits.length + 3 + left.length := by
        rw [List.length_append, List.length_cons]
        omega
      rw [length]
      by_cases remote : Scan.readCode digits = some frameCode ∨
          Scan.readCode digits = some controlCode
      · obtain ⟨code, read, known⟩ : ∃ code, Scan.readCode digits = some code ∧
            (code = frameCode ∨ code = controlCode) := by
          rcases remote with read | read
          · exact ⟨_, read, .inl rfl⟩
          · exact ⟨_, read, .inr rfl⟩
        rw [read]
        exact passes_remote harmless read known ahead''
      · exact passes_foreign (by omega) (not_or.mp remote) ahead''
    · rw [if_neg coded, Nat.add_comm]
      exact passes_foreign Nat.two_pos (by simp) ahead

theorem passes_scan (some : body ≠ []) (harmless : block.Harmless limit body)
    (ahead : input <+: body ++ esc :: bracket :: tail) :
    block.Passes body.length (scan limit input) := by
  obtain ⟨b, body, rfl⟩ := List.exists_cons_of_ne_nil some
  cases input with
  | nil => exact passes_incomplete block _
  | cons c rest =>
    obtain ⟨rfl, ahead'⟩ := List.cons_prefix_cons.mp ahead
    by_cases text : c = esc
    · subst text
      rcases rest with _ | ⟨next, rest⟩
      · exact passes_incomplete block _
      by_cases opens : next = bracket
      · subst opens
        cases body with
        | nil => exact absurd (List.cons_prefix_cons.mp ahead').1 (by decide)
        | cons d body =>
          obtain ⟨rfl, ahead''⟩ := List.cons_prefix_cons.mp ahead'
          exact passes_sequence harmless ahead''
      · rw [scan_escape limit rest opens]
        exact passes_other block Nat.one_pos (Nat.succ_pos _)
    · have run : esc ∉ c :: rest.takeWhile (· ≠ esc) := by
        rw [List.mem_cons, not_or]
        refine ⟨Ne.symm text, fun member => ?_⟩
        simpa using List.mem_takeWhile_imp member
      have parts : c :: rest.takeWhile (· ≠ esc) ++ rest.dropWhile (· ≠ esc) = c :: rest := by
        rw [List.cons_append, List.takeWhile_append_dropWhile]
      obtain ⟨left, same, -⟩ := exists_append_of_prefix run (parts ▸ ahead)
      have length := congrArg List.length same
      simp only [List.length_append, List.length_cons] at length
      rw [scan_text limit rest text, List.length_cons]
      exact passes_other block (by omega) (by omega)

end OutputBlock

namespace Scan

theorem payload_decided {limit start : Nat} {code : Option UInt16} {bytes : Bytes}
    (ended : ending limit 0 bytes ≠ .unfinished) :
    payload limit code start bytes ≠ .incomplete := by
  unfold payload
  split
  · nofun
  · nofun
  · split <;> nofun
  · exact absurd ‹_› ended

theorem sequence_decided (limit : Nat) (body tail : Bytes) :
    sequence limit (body ++ esc :: bracket :: tail) ≠ .incomplete := by
  have parts := List.takeWhile_append_dropWhile (p := isDigitByte)
    (l := body ++ esc :: bracket :: tail)
  have all : ((body ++ esc :: bracket :: tail).takeWhile isDigitByte).all isDigitByte :=
    List.all_takeWhile
  rw [sequence]
  generalize (body ++ esc :: bracket :: tail).takeWhile isDigitByte = digits at parts all ⊢
  have free := esc_not_mem_digits all
  cases behind : (body ++ esc :: bracket :: tail).dropWhile isDigitByte with
  | nil =>
    rw [behind, List.append_nil] at parts
    exact absurd (List.mem_append_right body (.head _)) (parts ▸ free)
  | cons b rest =>
    rw [behind] at parts
    dsimp only
    split
    · rename_i coded
      have free' : esc ∉ digits ++ [b] := by
        rw [List.mem_append, not_or, coded.1]
        exact ⟨free, by decide⟩
      rw [← List.singleton_append, ← List.append_assoc] at parts
      have whole : digits ++ [b] ++ rest <+: body ++ esc :: bracket :: tail :=
        parts ▸ List.prefix_rfl
      obtain ⟨left, same, -⟩ := exists_append_of_prefix free' whole
      rw [same, List.append_assoc (digits ++ [b])] at parts
      rw [List.append_cancel_left parts]
      exact payload_decided (ending_decided _ _ _ _)
    · exact payload_decided (ending_decided _ _ _ _)

end Scan

/-- With the opening of the next envelope in sight, nothing in front of it is
waited for. -/
theorem scan_decided (limit : Nat) {body : Bytes} (some : body ≠ []) (tail : Bytes) :
    scan limit (body ++ esc :: bracket :: tail) ≠ .incomplete := by
  obtain ⟨b, body, rfl⟩ := List.exists_cons_of_ne_nil some
  by_cases text : b = esc
  · subst text
    rcases body with _ | ⟨next, body⟩
    · exact nofun
    by_cases opens : next = bracket
    · subst opens
      exact Scan.sequence_decided limit body tail
    · rw [List.cons_append, List.cons_append, scan_escape limit _ opens]
      nofun
  · rw [List.cons_append, scan_text limit _ text]
    nofun

theorem isBlank_of_mem_printInt {n : Int} {c : Char} (member : c ∈ Decimal.printInt n) :
    Text.isBlank c = false := by
  rcases Decimal.mem_printInt member with rfl | digit
  · rfl
  · have bounds := digit_bounds digit
    simp only [Text.isBlank, Bool.or_eq_false_iff, Bool.and_eq_false_iff, decide_eq_false_iff_not,
      beq_eq_false_iff_ne]
    omega

theorem le_of_mem_printInt {n : Int} {c : Char} (member : c ∈ Decimal.printInt n) :
    32 ≤ c.toNat := by
  rcases Decimal.mem_printInt member with rfl | digit
  · decide
  · have bounds := digit_bounds digit
    omega

namespace OutputBlock

variable {block : OutputBlock} {limit : Nat}

theorem toList_header (block : OutputBlock) :
    block.header.toList =
      "%output".toList ++ ' ' :: (block.id.toList ++ ' ' :: (Decimal.printInt block.pid.toInt
        ++ ' ' :: (Decimal.printInt block.channel.toInt
          ++ ' ' :: Decimal.printInt block.depth.toInt))) := by
  have word : "%output ".toList = "%output".toList ++ [' '] := by decide
  have space : " ".toList = [' '] := by decide
  unfold header header.number
  simp only [String.toList_append, String.toList_ofList, word, space, List.append_assoc,
    List.cons_append, List.nil_append]

theorem head?_header (block : OutputBlock) : block.header.toList.head? = some '%' := by
  have word : "%output".toList = '%' :: "output".toList := by decide
  rw [toList_header, word, List.cons_append, List.head?_cons]

theorem toList_footer (block : OutputBlock) :
    block.footer.toList = "%end".toList ++ ' ' :: block.id.toList := by
  have word : "%end ".toList = "%end".toList ++ [' '] := by decide
  unfold footer
  simp only [String.toList_append, word, List.append_assoc, List.cons_append, List.nil_append]

theorem head?_footer (block : OutputBlock) : block.footer.toList.head? = some '%' := by
  have word : "%end".toList = '%' :: "end".toList := by decide
  rw [toList_footer, word, List.cons_append, List.head?_cons]

/-! An identifier that is one word makes the envelopes what they are meant to be. -/

section

variable (sendable : block.Sendable limit)
include sendable

theorem Sendable.id_ne_nil : block.id.toList ≠ [] := by
  intro empty
  exact sendable.named (String.toList_inj.mp empty)

theorem Sendable.words_header :
    Text.words block.header.toList =
      ["%output".toList, block.id.toList, Decimal.printInt block.pid.toInt,
        Decimal.printInt block.channel.toInt, Decimal.printInt block.depth.toInt] := by
  have space : Text.isBlank ' ' := by decide
  have number (n : Int32) (rest : List Char) := Text.words_append_cons
    (Decimal.printInt_ne_nil n.toInt) (fun c => isBlank_of_mem_printInt) space rest
  rw [toList_header, Text.words_append_cons (by decide) (by simp [Text.isBlank]) space,
    Text.words_append_cons sendable.id_ne_nil sendable.word space, number, number,
    Text.words_of_word (Decimal.printInt_ne_nil _) fun c => isBlank_of_mem_printInt]

theorem Sendable.words_footer :
    Text.words block.footer.toList = ["%end".toList, block.id.toList] := by
  rw [toList_footer, Text.words_append_cons (by decide) (by simp [Text.isBlank]) (by decide),
    Text.words_of_word sendable.id_ne_nil sendable.word]

theorem Sendable.plain {text : List Char}
    (printed : ∀ c ∈ text, c ∈ block.id.toList ∨ 32 ≤ c.toNat) :
    esc ∉ Utf8.encode text ∧ bel ∉ Utf8.encode text := by
  constructor
  · intro member
    rcases printed _ (Utf8.mem_of_mem_encode member (by decide)) with named | high
    · exact sendable.noEsc named
    · exact absurd high (by decide)
  · intro member
    rcases printed _ (Utf8.mem_of_mem_encode member (by decide)) with named | high
    · exact sendable.noBel named
    · exact absurd high (by decide)

theorem Sendable.plain_header :
    esc ∉ Utf8.encode block.header.toList ∧ bel ∉ Utf8.encode block.header.toList := by
  apply sendable.plain
  intro c member
  simp only [toList_header, List.mem_append, List.mem_cons] at member
  rcases member with word | rfl | named | rfl | pid | rfl | channel | rfl | depth
  · have high : ∀ c ∈ "%output".toList, 32 ≤ c.toNat := by simp
    exact .inr (high c word)
  · exact .inr (by decide)
  · exact .inl named
  · exact .inr (by decide)
  · exact .inr (le_of_mem_printInt pid)
  · exact .inr (by decide)
  · exact .inr (le_of_mem_printInt channel)
  · exact .inr (by decide)
  · exact .inr (le_of_mem_printInt depth)

theorem Sendable.plain_footer :
    esc ∉ Utf8.encode block.footer.toList ∧ bel ∉ Utf8.encode block.footer.toList := by
  apply sendable.plain
  intro c member
  simp only [toList_footer, List.mem_append, List.mem_cons] at member
  rcases member with word | rfl | named
  · have high : ∀ c ∈ "%end".toList, 32 ≤ c.toNat := by simp
    exact .inr (high c word)
  · exact .inr (by decide)
  · exact .inl named

theorem Sendable.numbers : (codeDigits frameCode).length + 2 ≤ limit := by
  have fits := sendable.footer
  have front : Utf8.encode block.footer.toList =
      Utf8.encode "%end ".toList ++ Utf8.encode block.id.toList := by
    rw [OutputBlock.footer, String.toList_append, Utf8.encode_append]
  have digits : (codeDigits frameCode).length = 3 := by decide
  have word : (Utf8.encode "%end ".toList).length = 5 := by decide
  rw [front, List.length_append] at fits
  omega

theorem Sendable.isEndedBy (length : Nat) :
    block.isEndedBy ⟨some frameCode, Utf8.encode block.footer.toList, length⟩ = true := by
  have text : Envelope.text ⟨some frameCode, Utf8.encode block.footer.toList, length⟩ =
      String.ofList block.footer.toList :=
    text_encode (by rw [head?_footer]; decide) _ length
  rw [OutputBlock.isEndedBy, text, String.toList_ofList, sendable.words_footer]
  simp

theorem Sendable.accept_header (rules : Rules) (length : Nat) :
    accept rules frameCode block.header length =
      ⟨.output { block with raw := #[] }, length, .progress⟩ := by
  have open' : ofHeader? (Text.words block.header.toList) =
      some { block with raw := #[] } := by
    rw [sendable.words_header]
    simp [ofHeader?, Decimal.int32?_printInt, empty]
  unfold accept
  dsimp only
  rw [open', sendable.words_header]
  simp only [List.head?_cons, Option.map_some, Option.getD_some, String.ofList_toList]
  rw [if_neg (by decide), if_neg fun asked => absurd asked.1 (by decide), if_pos (by decide)]

theorem Sendable.transition_header (rules : Rules) (fits : rules.limits.envelope = limit)
    (more : Bytes) :
    transition rules .ground (Envelope.encode frameCode block.header ++ more) =
      ⟨.output { block with raw := #[] }, (Envelope.encode frameCode block.header).length,
        .progress⟩ := by
  obtain ⟨noEsc, noBel⟩ := sendable.plain_header
  have text (length : Nat) : Envelope.text
      ⟨some frameCode, Utf8.encode block.header.toList, length⟩ = block.header := by
    rw [text_encode (by rw [head?_header]; decide), String.ofList_toList]
  rw [transition_eq_answer rules _ (by simp), fits, scan_encode noEsc noBel sendable.header more,
    answer, if_pos (by simp [Envelope.isRemote]), text]
  · exact sendable.accept_header rules _
  all_goals simp

theorem Sendable.transition_footer (rules : Rules) (fits : rules.limits.envelope = limit)
    (more : Bytes) :
    transition rules (.output block) (Envelope.encode frameCode block.footer ++ more) =
      ⟨.ground, (Envelope.encode frameCode block.footer).length, .frame block.frame⟩ := by
  obtain ⟨noEsc, noBel⟩ := sendable.plain_footer
  rw [transition_eq_answer rules _ (by simp), fits, scan_encode noEsc noBel sendable.footer more,
    answer, if_pos (sendable.isEndedBy _)]

end

theorem transition_body (rules : Rules) {left input tail : Bytes} (some : left ≠ [])
    (harmless : block.Harmless rules.limits.envelope left)
    (ahead : input <+: left ++ esc :: bracket :: tail) :
    (transition rules (.output block) input).event = .blocked ∧
        input ≠ left ++ esc :: bracket :: tail ∨
      ∃ n, n ≤ left.length ∧ n ≤ input.length ∧
        transition rules (.output block) input = extend rules block n input := by
  have passes := passes_scan some harmless ahead
  have within := scan_within rules.limits.envelope input
  rw [transition_eq_answer rules input (by simp)]
  cases found : scan rules.limits.envelope input with
  | incomplete =>
    refine .inl ⟨rfl, ?_⟩
    intro same
    exact scan_decided _ some tail (same ▸ found)
  | tooLarge => exact absurd found passes.bounded
  | other n =>
    rw [found] at passes within
    exact .inr ⟨n, passes.within.2, within.2, rfl⟩
  | envelope e =>
    rw [found] at passes within
    refine .inr ⟨e.length, passes.within.2, within.2, ?_⟩
    rw [answer, if_neg (by simp [passes.goesOn e rfl])]

end OutputBlock

end TerminalFeed
