import TerminalFeed.Proofs.Blocks

/-!
Which bytes are an envelope: `ESC ]`, a header, a payload without escapes and
bells, and its end. The header is a number with a semicolon, or nothing where
no such number stands. A scan finds the envelope at the front of its input
whenever there is one, and none starts in the bytes that it passes over.
-/

namespace TerminalFeed

def spelled (digits : Bytes) : Nat :=
  digits.foldl (fun n b => 10 * n + (b.toNat - 48)) 0

def codeOf (digits : Bytes) : Option UInt16 :=
  if spelled digits ≤ 65535 then some (UInt16.ofNat (spelled digits)) else none

/-- What may stand between `ESC ]` and a payload, where `behind` starts with the
payload: a number with a semicolon, and the code it gives, or nothing. -/
inductive Heads (behind : Bytes) : Bytes → Option UInt16 → Prop
  | numbered {digits : Bytes} (some : digits ≠ []) (all : digits.all isDigitByte) :
      Heads behind (digits ++ [semicolon]) (codeOf digits)
  | bare (free : ∀ digits more : Bytes, digits ≠ [] → digits.all isDigitByte →
      behind ≠ digits ++ semicolon :: more) : Heads behind [] none

/-- The envelope at the front of an input. -/
inductive Leads (limit : Nat) : Bytes → Envelope → Prop
  | envelope {header payload close more : Bytes} {code : Option UInt16}
      (heads : Heads (payload ++ close ++ more) header code)
      (noEsc : esc ∉ payload) (noBel : bel ∉ payload) (fits : payload.length ≤ limit)
      (closes : Scan.Closes close) :
      Leads limit ([esc, bracket] ++ header ++ (payload ++ close ++ more))
        ⟨code, payload, ([esc, bracket] ++ header ++ payload ++ close).length⟩

theorem digitByte_bounds {b : UInt8} (digit : isDigitByte b) : 48 ≤ b.toNat ∧ b.toNat ≤ 57 := by
  simpa [isDigitByte, UInt8.le_iff_toNat_le] using digit

theorem toNat_charOf (b : UInt8) : (Char.ofNat b.toNat).toNat = b.toNat := by
  have bytes : ∀ n < 256, (Char.ofNat n).toNat = n := by decide +kernel
  exact bytes _ b.toNat_lt

theorem readCode_eq {digits : Bytes} (some : digits ≠ []) (all : digits.all isDigitByte) :
    Scan.readCode digits = codeOf digits := by
  have chars : (digits.map fun b => Char.ofNat b.toNat).all Char.isDigit := by
    rw [List.all_map, List.all_eq_true]
    intro b member
    have bounds := digitByte_bounds (List.all_eq_true.mp all b member)
    exact Char.isDigit_iff_toNat.mpr (by rw [toNat_charOf]; exact bounds)
  have value : Decimal.natural? (digits.map fun b => Char.ofNat b.toNat) =
      .some (spelled digits) := by
    rw [Decimal.natural?, chars, if_pos (by simpa using some), Nat.ofDigitChars, List.foldl_map]
    simp only [toNat_charOf]
    rfl
  rw [Scan.readCode, Decimal.atMost?_eq, value, Option.filter_some, codeOf]
  simp only [decide_eq_true_eq]
  split <;> rfl

theorem Heads.esc_not_mem {behind header : Bytes} {code : Option UInt16}
    (heads : Heads behind header code) : esc ∉ header := by
  cases heads with
  | numbered some all =>
    rw [List.mem_append, not_or]
    exact ⟨esc_not_mem_digits all, by decide⟩
  | bare free => exact List.not_mem_nil

theorem Heads.semicolon_mem {behind header : Bytes} {code : UInt16}
    (heads : Heads behind header (some code)) : semicolon ∈ header := by
  generalize given : some code = found at heads
  cases heads with
  | numbered => exact List.mem_append_right _ List.mem_cons_self
  | bare => cases given

theorem exists_heads (body : Bytes) :
    ∃ header behind code, body = header ++ behind ∧ Heads behind header code := by
  by_cases numbered : ∃ digits more : Bytes, digits ≠ [] ∧ digits.all isDigitByte ∧
      body = digits ++ semicolon :: more
  · obtain ⟨digits, more, some, all, rfl⟩ := numbered
    exact ⟨digits ++ [semicolon], more, codeOf digits, by simp, .numbered some all⟩
  · refine ⟨[], body, none, rfl, .bare ?_⟩
    intro digits more some all same
    exact numbered ⟨digits, more, some, all, same⟩

theorem not_mem_cons {b c : UInt8} {bytes : Bytes} (other : b ≠ c) (free : c ∉ bytes) :
    c ∉ b :: bytes := by
  rw [List.mem_cons, not_or]
  exact ⟨other.symm, free⟩

namespace Scan

inductive Ends (limit count : Nat) : Bytes → Ending → Prop
  | closed (payload : Bytes) {close : Bytes} (more : Bytes)
      (noEsc : esc ∉ payload) (noBel : bel ∉ payload)
      (fits : count + payload.length ≤ limit) (closes : Closes close) :
      Ends limit count (payload ++ close ++ more) (.closed (count + payload.length) close.length)
  | aborted (payload : Bytes) {next : UInt8} (more : Bytes) (noEsc : esc ∉ payload)
      (void : next ≠ backslash) :
      Ends limit count (payload ++ esc :: next :: more) (.aborted (count + payload.length))
  | oversized (payload more : Bytes) (noEsc : esc ∉ payload) (noBel : bel ∉ payload)
      (full : count + payload.length = limit + 1) :
      Ends limit count (payload ++ more) (.oversized limit)
  | unfinished (bytes : Bytes) : Ends limit count bytes .unfinished

theorem Ends.cons {limit count : Nat} {b : UInt8} {rest : Bytes} {e : Ending} (text : b ≠ esc)
    (silent : b ≠ bel) (ends : Ends limit (count + 1) rest e) : Ends limit count (b :: rest) e := by
  cases ends with
  | @closed payload close more noEsc noBel fits closes =>
    have longer : count + (b :: payload).length ≤ limit := by rw [List.length_cons]; omega
    have ends := Ends.closed _ more (not_mem_cons text noEsc) (not_mem_cons silent noBel)
      longer closes
    rwa [List.length_cons, ← Nat.add_assoc, Nat.add_right_comm] at ends
  | @aborted payload next more noEsc void =>
    have ends : Ends limit count (b :: payload ++ esc :: next :: more) _ :=
      .aborted _ more (not_mem_cons text noEsc) void
    rwa [List.length_cons, ← Nat.add_assoc, Nat.add_right_comm] at ends
  | @oversized payload more noEsc noBel full =>
    exact .oversized (b :: payload) more (not_mem_cons text noEsc)
      (not_mem_cons silent noBel) (by rw [List.length_cons]; omega)
  | unfinished => exact .unfinished _

theorem ending_ends {limit count : Nat} (inside : count ≤ limit) (bytes : Bytes) :
    Ends limit count bytes (ending limit count bytes) := by
  fun_induction ending limit count bytes with
  | case1 => exact .unfinished _
  | case2 count rest =>
    exact .closed [] rest List.not_mem_nil List.not_mem_nil inside (.inl rfl)
  | case3 => exact .unfinished _
  | case4 count rest =>
    exact .closed [] rest List.not_mem_nil List.not_mem_nil inside (.inr rfl)
  | case5 count next rest void => exact .aborted [] rest List.not_mem_nil void
  | case6 count b rest silent text full =>
    have reached : count = limit := Nat.le_antisymm inside full
    subst reached
    exact .oversized [b] rest (not_mem_cons text List.not_mem_nil)
      (not_mem_cons silent List.not_mem_nil) rfl
  | case7 count b rest silent text room ih => exact (ih (Nat.lt_of_not_le room)).cons text silent

theorem ending_oversized {limit count : Nat} {payload : Bytes} (more : Bytes)
    (noEsc : esc ∉ payload) (noBel : bel ∉ payload) (inside : count ≤ limit)
    (full : count + payload.length = limit + 1) :
    ending limit count (payload ++ more) = .oversized limit := by
  induction payload generalizing count with
  | nil =>
    rw [List.length_nil] at full
    omega
  | cons b rest ih =>
    rw [List.mem_cons, not_or] at noEsc noBel
    rw [List.length_cons] at full
    rw [List.cons_append, ending.eq_def]
    dsimp only
    rw [if_neg (Ne.symm noBel.1), if_neg (Ne.symm noEsc.1)]
    by_cases last : limit ≤ count
    · rw [if_pos last, Nat.le_antisymm inside last]
    · rw [if_neg last]
      exact ih noEsc.2 noBel.2 (by omega) (by omega)

section

variable {limit start : Nat} {code : Option UInt16} {bytes : Bytes}

theorem payload_eq_envelope_iff {e : Envelope} :
    payload limit code start bytes = .envelope e ↔
      ∃ text close more, bytes = text ++ close ++ more ∧ esc ∉ text ∧ bel ∉ text ∧
        text.length ≤ limit ∧ Closes close ∧
        e = ⟨code, text, start + text.length + close.length⟩ := by
  constructor
  · intro found
    have ends := ending_ends (Nat.zero_le limit) bytes
    rw [payload] at found
    generalize ending limit 0 bytes = ending at found ends
    cases ends with
    | @closed text close more noEsc noBel fits closes =>
      simp only [Nat.zero_add, envelope.injEq] at found fits
      refine ⟨text, close, more, rfl, noEsc, noBel, fits, closes, ?_⟩
      rw [← found, List.append_assoc, List.take_left]
    | aborted => cases found
    | oversized =>
      dsimp only at found
      split at found <;> cases found
    | unfinished => cases found
  · rintro ⟨text, close, more, rfl, noEsc, noBel, fits, closes, rfl⟩
    have closed := ending_closed noEsc noBel closes (by rwa [Nat.zero_add] : 0 + _ ≤ limit) more
    rw [payload, closed]
    dsimp only
    rw [Nat.zero_add, List.append_assoc, List.take_left]

theorem payload_eq_tooLarge_iff :
    payload limit code start bytes = .tooLarge ↔
      (code = some frameCode ∨ code = some controlCode) ∧
        ∃ text more, bytes = text ++ more ∧ text.length = limit + 1 ∧ esc ∉ text ∧ bel ∉ text := by
  constructor
  · intro found
    have ends := ending_ends (Nat.zero_le limit) bytes
    rw [payload] at found
    generalize ending limit 0 bytes = ending at found ends
    cases ends with
    | closed => cases found
    | aborted => cases found
    | @oversized text more noEsc noBel full =>
      dsimp only at found
      split at found
      · rename_i remote
        exact ⟨remote, text, more, rfl, by omega, noEsc, noBel⟩
      · cases found
    | unfinished => cases found
  · rintro ⟨remote, text, more, rfl, full, noEsc, noBel⟩
    rw [payload, ending_oversized more noEsc noBel (Nat.zero_le _) (by omega)]
    exact if_pos remote

theorem esc_not_mem_of_payload {n : Nat} (passed : payload limit code start bytes = .other n) :
    esc ∉ bytes.take (n - start) := by
  have ends := ending_ends (Nat.zero_le limit) bytes
  rw [payload] at passed
  generalize ending limit 0 bytes = ending at passed ends
  cases ends with
  | closed => cases passed
  | @aborted text next more noEsc =>
    simp only [other.injEq] at passed
    rw [← passed, Nat.zero_add, Nat.add_sub_cancel_left, List.take_left]
    exact noEsc
  | @oversized text more noEsc noBel full =>
    dsimp only at passed
    split at passed
    · cases passed
    · simp only [other.injEq] at passed
      rw [← passed, Nat.add_sub_cancel_left, List.take_append_of_le_length (by omega)]
      exact fun member => noEsc (List.mem_of_mem_take member)
  | unfinished => cases passed

end

theorem sequence_heads (limit : Nat) {header behind : Bytes} {code : Option UInt16}
    (heads : Heads behind header code) (ended : ¬(header ++ behind).all isDigitByte) :
    sequence limit (header ++ behind) = payload limit code (2 + header.length) behind := by
  cases heads with
  | @numbered digits some all =>
    have start : 2 + (digits ++ [semicolon]).length = digits.length + 3 := by
      rw [List.length_append, List.length_singleton]
      omega
    rw [List.append_assoc, start, ← readCode_eq some all]
    exact sequence_numbered limit all some behind
  | bare free =>
    rw [List.nil_append] at ended ⊢
    have whole := List.takeWhile_append_dropWhile (p := isDigitByte) (l := behind)
    rw [sequence]
    cases left : behind.dropWhile isDigitByte with
    | nil =>
      rw [List.dropWhile_eq_nil_iff] at left
      exact absurd (List.all_eq_true.mpr left) ended
    | cons b rest =>
      rw [left] at whole
      refine if_neg ?_
      rintro ⟨rfl, some⟩
      exact free _ rest some List.all_takeWhile whole.symm

theorem sequence_unended (limit : Nat) {body : Bytes} (digits : body.all isDigitByte) :
    sequence limit body = .incomplete ∨ sequence limit body = .other (2 + body.length) := by
  have digit := List.all_eq_true.mp digits
  rw [sequence, List.takeWhile_eq_self_iff.mpr digit, List.dropWhile_eq_nil_iff.mpr digit]
  dsimp only
  split
  · exact .inr rfl
  · exact .inl rfl

theorem esc_not_mem_of_sequence {limit n : Nat} {body : Bytes}
    (passed : sequence limit body = .other n) : esc ∉ body.take (n - 2) := by
  by_cases digits : body.all isDigitByte
  · exact fun member => esc_not_mem_digits digits (List.mem_of_mem_take member)
  · obtain ⟨header, behind, code, rfl, heads⟩ := exists_heads body
    rw [sequence_heads limit heads digits] at passed
    have free := esc_not_mem_of_payload passed
    rw [List.take_append, List.mem_append, not_or, Nat.sub_sub]
    exact ⟨fun member => heads.esc_not_mem (List.mem_of_mem_take member), free⟩

end Scan

theorem esc_not_mem_of_other {limit n : Nat} {b : UInt8} {rest : Bytes}
    (passed : scan limit (b :: rest) = .other n) : esc ∉ rest.take (n - 1) := by
  by_cases text : b = esc
  · subst text
    cases rest with
    | nil => cases passed
    | cons next body =>
      by_cases opens : next = bracket
      · subst opens
        have free : esc ∉ body.take (n - 2) := Scan.esc_not_mem_of_sequence passed
        cases length : n - 1 with
        | zero => exact List.not_mem_nil
        | succ k =>
          rw [show n - 2 = k by omega] at free
          exact not_mem_cons (by decide) free
      · rw [scan_escape limit body opens, Scan.other.injEq] at passed
        rw [← passed]
        exact List.not_mem_nil
  · rw [scan_text limit rest text, Scan.other.injEq] at passed
    rw [← passed, Nat.add_sub_cancel_left,
      ← List.prefix_iff_eq_take.mp (List.takeWhile_prefix _)]
    intro member
    simpa using List.all_eq_true.mp List.all_takeWhile esc member

/-- Only a sequence can be an envelope or too large for one, and its payload decides. -/
theorem exists_payload {limit : Nat} {input : Bytes}
    (found : (∃ e, scan limit input = .envelope e) ∨ scan limit input = .tooLarge) :
    ∃ header behind code, input = [esc, bracket] ++ header ++ behind ∧ Heads behind header code ∧
      scan limit input = Scan.payload limit code (2 + header.length) behind := by
  cases input with
  | nil => simp [scan] at found
  | cons b rest =>
    by_cases text : b = esc
    · subst text
      cases rest with
      | nil => simp [scan] at found
      | cons next body =>
        by_cases opens : next = bracket
        · subst opens
          have same : scan limit (esc :: bracket :: body) = Scan.sequence limit body := rfl
          rw [same] at found ⊢
          by_cases digits : body.all isDigitByte
          · rcases Scan.sequence_unended limit digits with more | more <;> simp [more] at found
          · obtain ⟨header, behind, code, rfl, heads⟩ := exists_heads body
            exact ⟨header, behind, code, by simp, heads, Scan.sequence_heads limit heads digits⟩
        · simp [scan_escape limit body opens] at found
    · simp [scan_text limit rest text] at found

theorem scan_heads (limit : Nat) {header behind : Bytes} {code : Option UInt16}
    (heads : Heads behind header code) {b : UInt8} (member : b ∈ header ++ behind)
    (other : isDigitByte b = false) :
    scan limit ([esc, bracket] ++ header ++ behind) =
      Scan.payload limit code (2 + header.length) behind := by
  have ended : ¬(header ++ behind).all isDigitByte := by
    intro digits
    have digit := List.all_eq_true.mp digits b member
    rw [other] at digit
    cases digit
  rw [← Scan.sequence_heads limit heads ended, List.append_assoc]
  rfl

theorem Scan.Closes.exists_mem {close : Bytes} (closes : Scan.Closes close) :
    ∃ b ∈ close, isDigitByte b = false := by
  rcases closes with rfl | rfl
  · exact ⟨bel, .head _, by decide⟩
  · exact ⟨esc, .head _, by decide⟩

theorem length_opened (header payload close : Bytes) :
    ([esc, bracket] ++ header ++ payload ++ close).length =
      2 + header.length + payload.length + close.length := by
  simp only [List.length_append, List.length_cons, List.length_nil]

theorem scan_eq_envelope_iff {limit : Nat} {input : Bytes} {e : Envelope} :
    scan limit input = .envelope e ↔ Leads limit input e := by
  constructor
  · intro found
    obtain ⟨header, behind, code, rfl, heads, same⟩ := exists_payload (.inl ⟨e, found⟩)
    rw [same, Scan.payload_eq_envelope_iff] at found
    obtain ⟨payload, close, more, rfl, noEsc, noBel, fits, closes, rfl⟩ := found
    rw [← length_opened]
    exact .envelope heads noEsc noBel fits closes
  · rintro @⟨header, payload, close, more, code, heads, noEsc, noBel, fits, closes⟩
    obtain ⟨b, member, other⟩ := closes.exists_mem
    have inside : b ∈ header ++ (payload ++ close ++ more) := by simp [member]
    rw [scan_heads limit heads inside other, Scan.payload_eq_envelope_iff, length_opened]
    exact ⟨payload, close, more, rfl, noEsc, noBel, fits, closes, rfl⟩

theorem head?_of_leads {limit : Nat} {input : Bytes} {e : Envelope} (leads : Leads limit input e) :
    input.head? = some esc := by
  cases leads
  rfl

theorem not_leads_of_other {limit n k : Nat} {input : Bytes} (passed : scan limit input = .other n)
    (before : k < n) (e : Envelope) : ¬Leads limit (input.drop k) e := by
  intro leads
  cases k with
  | zero =>
    rw [List.drop_zero, ← scan_eq_envelope_iff, passed] at leads
    cases leads
  | succ k =>
    cases input with
    | nil => cases passed
    | cons b rest =>
      apply esc_not_mem_of_other passed
      have here := head?_of_leads leads
      rw [List.drop_succ_cons, List.head?_drop] at here
      exact List.mem_of_getElem? (i := k) (by rw [List.getElem?_take_of_lt (by omega), here])

structure Scan.Answers (limit : Nat) (input : Bytes) : Prop where
  envelope : ∀ e, scan limit input = .envelope e ↔ Leads limit input e
  other : ∀ n, scan limit input = .other n → 0 < n ∧ n ≤ input.length ∧
    ∀ k < n, ∀ e, scan limit (input.drop k) ≠ .envelope e
  tooLarge : scan limit input = .tooLarge ↔
    ∃ header payload more code, input = [esc, bracket] ++ header ++ (payload ++ more) ∧
      Heads (payload ++ more) header code ∧ (code = some frameCode ∨ code = some controlCode) ∧
      payload.length = limit + 1 ∧ esc ∉ payload ∧ bel ∉ payload

/-- A scan finds exactly the envelopes and skips none, and gives up exactly those
payloads of remote codes that are too long. -/
theorem scan_answers (limit : Nat) (input : Bytes) : Scan.Answers limit input where
  envelope e := scan_eq_envelope_iff
  other n passed := by
    have within := scan_within limit input
    rw [passed] at within
    refine ⟨within.1, within.2, fun k before e found => ?_⟩
    exact not_leads_of_other passed before e (scan_eq_envelope_iff.mp found)
  tooLarge := by
    constructor
    · intro found
      obtain ⟨header, behind, code, rfl, heads, same⟩ := exists_payload (.inr found)
      rw [same, Scan.payload_eq_tooLarge_iff] at found
      obtain ⟨remote, payload, more, rfl, full, noEsc, noBel⟩ := found
      exact ⟨header, payload, more, code, rfl, heads, remote, full, noEsc, noBel⟩
    · rintro ⟨header, payload, more, code, rfl, heads, remote, full, noEsc, noBel⟩
      have numbered : semicolon ∈ header := by
        rcases remote with rfl | rfl <;> exact heads.semicolon_mem
      rw [scan_heads limit heads (List.mem_append_left _ numbered) (by decide),
        Scan.payload_eq_tooLarge_iff]
      exact ⟨remote, payload, more, rfl, full, noEsc, noBel⟩

/-- Leading zeros spell the same code, and one byte decides over the limit. -/
example : scan 3 (Utf8.encode "\x1b]0134;abcd".toList) = .tooLarge ∧
    scan 3 (Utf8.encode "\x1b]0134;abc".toList) = .incomplete := by
  decide +kernel

end TerminalFeed
