import Mathlib.Data.List.TakeWhile
import TerminalFeed.Proofs.Scanning

/-!
An envelope that was encoded is found again at the front of any bytes, whole,
and is waited for while a part of it is all there is.
-/

namespace TerminalFeed

theorem digit_bounds {c : Char} (digit : c.isDigit) : 48 ≤ c.toNat ∧ c.toNat ≤ 57 :=
  Char.isDigit_iff_toNat.mp digit

theorem toNat_ofNat_digit {c : Char} (digit : c.isDigit) :
    (UInt8.ofNat c.toNat).toNat = c.toNat := by
  have bounds := digit_bounds digit
  rw [UInt8.toNat_ofNat']
  omega

theorem encode_digits {digits : List Char} (all : digits.all Char.isDigit) :
    Utf8.encode digits = digits.map fun c => UInt8.ofNat c.toNat := by
  apply Utf8.encode_ascii
  intro c member
  have bounds := digit_bounds (List.all_eq_true.mp all c member)
  omega

theorem all_isDigitByte_encode {digits : List Char} (all : digits.all Char.isDigit) :
    (Utf8.encode digits).all isDigitByte := by
  rw [encode_digits all, List.all_map, List.all_eq_true]
  intro c member
  have digit := List.all_eq_true.mp all c member
  simpa [isDigitByte, UInt8.le_iff_toNat_le, toNat_ofNat_digit digit] using digit_bounds digit

theorem map_ofNat_encode {digits : List Char} (all : digits.all Char.isDigit) :
    ((Utf8.encode digits).map fun b => Char.ofNat b.toNat) = digits := by
  rw [encode_digits all, List.map_map]
  refine (List.map_congr_left ?_).trans (List.map_id _)
  intro c member
  simp [toNat_ofNat_digit (List.all_eq_true.mp all c member)]

def codeDigits (code : UInt16) : Bytes := Utf8.encode (Decimal.print code.toNat)

theorem all_codeDigits (code : UInt16) : (codeDigits code).all isDigitByte :=
  all_isDigitByte_encode (Decimal.all_isDigit_print _)

theorem codeDigits_ne_nil (code : UInt16) : codeDigits code ≠ [] := by
  obtain ⟨c, rest, digits, -⟩ := Decimal.print_eq_cons code.toNat
  have all := Decimal.all_isDigit_print code.toNat
  rw [codeDigits, encode_digits all, digits]
  exact List.cons_ne_nil _ _

theorem readCode_codeDigits (code : UInt16) : Scan.readCode (codeDigits code) = some code := by
  have small := code.toNat_lt
  rw [Scan.readCode, codeDigits, map_ofNat_encode (Decimal.all_isDigit_print _),
    Decimal.atMost?_eq, Decimal.natural?_print, Option.filter_some, if_pos (by simp; omega)]
  simp

theorem encode_eq (code : UInt16) (text : String) :
    Envelope.encode code text =
      esc :: bracket :: (codeDigits code ++ semicolon :: (Utf8.encode text.toList
        ++ [esc, backslash])) := by
  simp [Envelope.encode, codeDigits]

namespace Scan

def Closes (close : Bytes) : Prop := close = [bel] ∨ close = [esc, backslash]

section

variable {limit count : Nat} {bytes close : Bytes}

theorem ending_closed (noEsc : esc ∉ bytes) (noBel : bel ∉ bytes) (closes : Closes close)
    (fits : count + bytes.length ≤ limit) (more : Bytes) :
    ending limit count (bytes ++ close ++ more) = .closed (count + bytes.length) close.length := by
  induction bytes generalizing count with
  | nil =>
    rcases closes with rfl | rfl
    · rfl
    · rfl
  | cons b rest ih =>
    rw [List.mem_cons, not_or] at noEsc noBel
    rw [List.length_cons] at fits
    have room : ¬limit ≤ count := by omega
    have further : ending limit count (b :: rest ++ close ++ more) =
        ending limit (count + 1) (rest ++ close ++ more) := by
      simp [ending, Ne.symm noBel.1, Ne.symm noEsc.1, room]
    rw [further, ih noEsc.2 noBel.2 (by omega), List.length_cons, Nat.add_assoc,
      Nat.add_comm 1]

theorem ending_of_prefix (noEsc : esc ∉ bytes) (noBel : bel ∉ bytes) (closes : Closes close)
    (fits : count + bytes.length ≤ limit) {front later : Bytes}
    (parts : front ++ later = bytes ++ close) (short : later ≠ []) :
    ending limit count front = .unfinished := by
  have whole := ending_closed noEsc noBel closes fits []
  rw [List.append_nil, ← parts] at whole
  apply Decidable.byContradiction
  intro ended
  have within := ending_within limit count front
  rw [← ending_append later ended, whole] at within
  have length := congrArg List.length parts
  have some := List.length_pos_iff.mpr short
  rw [List.length_append, List.length_append] at length
  have := within.2.2
  omega

end

theorem sequence_numbered (limit : Nat) {digits : Bytes} (all : digits.all isDigitByte)
    (some : digits ≠ []) (rest : Bytes) :
    sequence limit (digits ++ semicolon :: rest) =
      payload limit (readCode digits) (digits.length + 3) rest := by
  have digit := List.all_eq_true.mp all
  have stop : ¬isDigitByte semicolon := by decide
  rw [sequence, List.takeWhile_append_of_pos digit, List.dropWhile_append_of_pos digit,
    List.takeWhile_cons_of_neg stop, List.dropWhile_cons_of_neg stop, List.append_nil]
  exact if_pos ⟨rfl, some⟩

theorem sequence_digits {limit : Nat} {digits : Bytes} (all : digits.all isDigitByte)
    (fits : digits.length + 2 ≤ limit) : sequence limit digits = .incomplete := by
  have digit := List.all_eq_true.mp all
  rw [sequence, List.takeWhile_eq_self_iff.mpr digit, List.dropWhile_eq_nil_iff.mpr digit]
  exact if_neg (by omega)

end Scan

theorem text_encode {text : List Char} (plain : text.head? ≠ some ':') (code : Option UInt16)
    (length : Nat) : Envelope.text ⟨code, Utf8.encode text, length⟩ = String.ofList text := by
  have whole : Utf8.decodeLossy (Utf8.encode text) = text := Utf8.decodeLossy_encode text
  have free : (Utf8.encode text).head? ≠ some colon := by
    intro leads
    cases text with
    | nil => cases leads
    | cons c rest =>
      have first : (Utf8.encode (c :: rest)).head? = (String.utf8EncodeChar c).head? := by
        rw [Utf8.encode, List.flatMap_cons, List.head?_append,
          Option.or_of_isSome (by simp [String.utf8EncodeChar_ne_nil])]
      have inside : colon ∈ Utf8.encode [c] := by
        rw [Utf8.encode, List.flatMap_singleton]
        exact List.mem_of_mem_head? (first ▸ leads)
      have same := Utf8.mem_of_mem_encode inside (by decide)
      rw [List.mem_singleton] at same
      exact plain (congrArg some same.symm)
  rw [Envelope.text]
  dsimp only
  split
  · rename_i empty
    rw [empty] at whole
    rw [← whole]
  · rename_i b rest bytes
    rw [bytes, List.head?_cons] at free
    rw [if_neg fun same => free (congrArg some same), ← bytes, whole]

def dropColon : List Char → List Char
  | ':' :: rest => rest
  | text => text

theorem text_encode_eq (text : List Char) (code : Option UInt16) (length : Nat) :
    Envelope.text ⟨code, Utf8.encode text, length⟩ = String.ofList (dropColon text) := by
  by_cases leads : text.head? = some ':'
  · obtain ⟨rest, rfl⟩ := List.head?_eq_some_iff.mp leads
    have bytes : Utf8.encode (':' :: rest) = colon :: Utf8.encode rest := rfl
    rw [bytes, Envelope.text, dropColon]
    dsimp only
    rw [if_pos rfl, Utf8.decodeLossy_encode]
  · rw [text_encode leads, dropColon.eq_2]
    rintro rest rfl
    exact leads rfl

section

variable {limit : Nat} {code : UInt16} {text : String}

theorem scan_encode (noEsc : esc ∉ Utf8.encode text.toList) (noBel : bel ∉ Utf8.encode text.toList)
    (fits : (Utf8.encode text.toList).length ≤ limit) (more : Bytes) :
    scan limit (Envelope.encode code text ++ more) =
      .envelope ⟨some code, Utf8.encode text.toList, (Envelope.encode code text).length⟩ := by
  have closed := Scan.ending_closed noEsc noBel (.inr rfl)
    (by rwa [Nat.zero_add] : 0 + _ ≤ limit) more
  have whole : scan limit (Envelope.encode code text ++ more) =
      Scan.sequence limit (codeDigits code ++ semicolon ::
        (Utf8.encode text.toList ++ [esc, backslash] ++ more)) := by
    rw [encode_eq, List.cons_append, List.cons_append, List.append_assoc]
    rfl
  rw [whole, Scan.sequence_numbered limit (all_codeDigits code) (codeDigits_ne_nil code),
    readCode_codeDigits, Scan.payload, closed, encode_eq]
  simp
  omega

theorem scan_of_prefix_encode (noEsc : esc ∉ Utf8.encode text.toList)
    (noBel : bel ∉ Utf8.encode text.toList) (fits : (Utf8.encode text.toList).length ≤ limit)
    (numbers : (codeDigits code).length + 2 ≤ limit) {front later : Bytes}
    (parts : front ++ later = Envelope.encode code text) (short : later ≠ []) :
    scan limit front = .incomplete := by
  rw [encode_eq] at parts
  rcases front with _ | ⟨b, _ | ⟨next, body⟩⟩
  · rfl
  · cases parts
    rfl
  · simp only [List.cons_append, List.cons.injEq] at parts
    obtain ⟨rfl, rfl, parts⟩ := parts
    change Scan.sequence limit body = .incomplete
    rcases List.append_eq_append_iff.mp parts with ⟨left, digits, -⟩ | ⟨_ | ⟨b, rest⟩, same, tail⟩
    · -- Some of the digits may be missing,
      have all := all_codeDigits code
      rw [digits, List.all_append, Bool.and_eq_true] at all
      rw [digits, List.length_append] at numbers
      exact Scan.sequence_digits all.1 (by omega)
    · rw [same, List.append_nil]
      exact Scan.sequence_digits (all_codeDigits code) numbers
    · -- or only some of the payload and its end.
      simp only [List.cons_append, List.cons.injEq] at tail
      obtain ⟨rfl, tail⟩ := tail
      rw [same, Scan.sequence_numbered limit (all_codeDigits code) (codeDigits_ne_nil code),
        Scan.payload, Scan.ending_of_prefix noEsc noBel (.inr rfl) (by omega) tail.symm short]

theorem scan_front (noEsc : esc ∉ Utf8.encode text.toList) (noBel : bel ∉ Utf8.encode text.toList)
    (fits : (Utf8.encode text.toList).length ≤ limit)
    (numbers : (codeDigits code).length + 2 ≤ limit) {input more : Bytes}
    (ahead : input <+: Envelope.encode code text ++ more) :
    scan limit input = .incomplete ∧ input ≠ Envelope.encode code text ++ more ∨
      ∃ rest, input = Envelope.encode code text ++ rest := by
  rcases List.prefix_or_prefix_of_prefix ahead (List.prefix_append _ more) with part | ⟨rest, whole⟩
  · obtain ⟨later, parts⟩ := part
    by_cases short : later = []
    · rw [short, List.append_nil] at parts
      exact .inr ⟨[], by rw [parts, List.append_nil]⟩
    · left
      refine ⟨scan_of_prefix_encode noEsc noBel fits numbers parts short, ?_⟩
      intro same
      have length := congrArg List.length same
      have some := List.length_pos_iff.mpr short
      rw [← parts, List.length_append, List.length_append] at length
      omega
  · exact .inr ⟨rest, whole.symm⟩

end

theorem length_codeDigits (code : UInt16) :
    (codeDigits code).length = (Decimal.print code.toNat).length := by
  rw [codeDigits, encode_digits (Decimal.all_isDigit_print _), List.length_map]

structure Envelope.ReadBack (limit : Nat) (code : UInt16) (payload : String) : Prop where
  found : ∀ more, scan limit (encode code payload ++ more) =
    .envelope ⟨some code, Utf8.encode payload.toList, (encode code payload).length⟩
  text : ∀ length, Envelope.text ⟨some code, Utf8.encode payload.toList, length⟩ =
    String.ofList (dropColon payload.toList)
  -- A part of it is waited for, if its code alone is within the limit.
  awaited : 2 + (Decimal.print code.toNat).length ≤ limit →
    ∀ front, front <+: encode code payload → front ≠ encode code payload →
      scan limit front = .incomplete

/-- Scanning undoes encoding, and takes no part of it for the whole. -/
theorem readBack_encode {limit : Nat} {code : UInt16} {payload : String}
    (noEsc : '\x1b' ∉ payload.toList) (noBel : '\x07' ∉ payload.toList)
    (fits : (Utf8.encode payload.toList).length ≤ limit) :
    Envelope.ReadBack limit code payload := by
  have noEsc' : esc ∉ Utf8.encode payload.toList := fun member =>
    noEsc (Utf8.mem_of_mem_encode member (by decide))
  have noBel' : bel ∉ Utf8.encode payload.toList := fun member =>
    noBel (Utf8.mem_of_mem_encode member (by decide))
  refine ⟨scan_encode noEsc' noBel' fits, text_encode_eq _ _, ?_⟩
  rintro numbers front ⟨later, parts⟩ other
  have digits : (codeDigits code).length + 2 ≤ limit := by
    rw [length_codeDigits]
    omega
  refine scan_of_prefix_encode noEsc' noBel' fits digits parts ?_
  rintro rfl
  exact other (by rw [← parts, List.append_nil])

/-- The payload and the code's digits are both just as long as they may be. -/
theorem readBack_at_limit :
    let payload := "::é\n"
    '\x1b' ∉ payload.toList ∧ '\x07' ∉ payload.toList ∧
      (Utf8.encode payload.toList).length = 5 ∧ 2 + (Decimal.print 135).length = 5 ∧
      Envelope.ReadBack 5 135 payload :=
  ⟨by decide +kernel, by decide +kernel, by decide +kernel, by decide +kernel,
    readBack_encode (by decide +kernel) (by decide +kernel) (by decide +kernel)⟩

end TerminalFeed
