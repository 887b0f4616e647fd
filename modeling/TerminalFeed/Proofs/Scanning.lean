import TerminalFeed.Envelope

/-!
What a scan decides, it decides for good: more bytes behind the input change no
answer but `incomplete`, and the length of a run of plain bytes. A number that
is still growing is the one other exception, and `NumbersFit` rules it out.
-/

namespace TerminalFeed

theorem takeWhile_ne_append {stop : UInt8} {front : Bytes} (free : stop ∉ front)
    (rest : Bytes) :
    (front ++ rest).takeWhile (· ≠ stop) = front ++ rest.takeWhile (· ≠ stop) := by
  apply List.takeWhile_append_of_pos
  intro c member
  exact decide_eq_true fun same => free (same ▸ member)

/-- Behind each opening of a sequence stands a number with few enough digits. -/
def NumbersFit (limit : Nat) (bytes : Bytes) : Prop :=
  ∀ behind, esc :: bracket :: behind <:+ bytes →
    (behind.takeWhile isDigitByte).length + 2 ≤ limit

theorem numbersFit_nil (limit : Nat) : NumbersFit limit [] := by
  intro behind suffix
  exact absurd (List.suffix_nil.mp suffix) (List.cons_ne_nil _ _)

theorem numbersFit_cons_iff {limit : Nat} {b : UInt8} {rest : Bytes} :
    NumbersFit limit (b :: rest) ↔
      (∀ behind, b :: rest = esc :: bracket :: behind →
        (behind.takeWhile isDigitByte).length + 2 ≤ limit) ∧ NumbersFit limit rest := by
  constructor
  · intro fits
    constructor
    · intro behind same
      exact fits behind (same ▸ List.suffix_rfl)
    · intro behind suffix
      exact fits behind (suffix.trans (List.suffix_cons b rest))
  · rintro ⟨front, later⟩ behind suffix
    rcases List.suffix_cons_iff.mp suffix with same | inside
    · exact front behind same.symm
    · exact later behind inside

theorem NumbersFit.of_suffix {limit : Nat} {bytes tail : Bytes} (fits : NumbersFit limit bytes)
    (suffix : tail <:+ bytes) : NumbersFit limit tail := by
  intro behind inside
  exact fits behind (inside.trans suffix)

theorem NumbersFit.of_append {limit : Nat} {bytes more : Bytes}
    (fits : NumbersFit limit (bytes ++ more)) : NumbersFit limit bytes := by
  rintro behind ⟨front, whole⟩
  have longer := fits (behind ++ more) ⟨front, by rw [← whole]; simp⟩
  have shorter : (behind.takeWhile isDigitByte).length
      ≤ ((behind ++ more).takeWhile isDigitByte).length := by
    rw [List.takeWhile_append]
    split
    · rw [List.length_append]
      omega
    · exact Nat.le_refl _
  omega

/-- Behind the last opening of a sequence stands no number that goes on to the
end and has too many digits. -/
def EndFits (limit : Nat) (bytes : Bytes) : Prop :=
  ∀ digits, esc :: bracket :: digits <:+ bytes → digits.all isDigitByte →
    digits.length + 2 ≤ limit

theorem EndFits.of_suffix {limit : Nat} {bytes tail : Bytes} (fits : EndFits limit bytes)
    (suffix : tail <:+ bytes) : EndFits limit tail := by
  intro digits inside
  exact fits digits (inside.trans suffix)

theorem NumbersFit.endFits {limit : Nat} {bytes : Bytes} (fits : NumbersFit limit bytes) :
    EndFits limit bytes := by
  intro digits suffix whole
  have short := fits digits suffix
  have same : (digits ++ []).takeWhile isDigitByte = digits ++ [].takeWhile isDigitByte :=
    List.takeWhile_append_of_pos (List.all_eq_true.mp whole)
  rw [List.append_nil, List.takeWhile_nil, List.append_nil] at same
  rwa [same] at short

instance decidableNumbersFit (limit : Nat) : (bytes : Bytes) → Decidable (NumbersFit limit bytes)
  | [] => isTrue (numbersFit_nil limit)
  | b :: rest =>
    have := decidableNumbersFit limit rest
    decidable_of_iff
      ((b = esc → rest.head? = some bracket →
        (rest.tail.takeWhile isDigitByte).length + 2 ≤ limit) ∧ NumbersFit limit rest) <| by
      rw [numbersFit_cons_iff]
      refine and_congr_left fun _ => ⟨?_, ?_⟩
      · intro front behind same
        cases same
        exact front rfl rfl
      · intro front opens next
        cases rest with
        | nil => cases next
        | cons c behind =>
          cases opens
          cases next
          exact front behind rfl

namespace Scan

theorem ending_append {limit count : Nat} {bytes : Bytes} (more : Bytes)
    (ended : ending limit count bytes ≠ .unfinished) :
    ending limit count (bytes ++ more) = ending limit count bytes := by
  fun_induction ending limit count bytes with
  | case1 => exact absurd rfl ended
  | case2 count rest => simp [ending]
  | case3 => exact absurd rfl ended
  | case4 count rest text => simp [ending, text]
  | case5 count next rest void text => simp [ending, text, void]
  | case6 count b rest text payload full => simp [ending, text, payload, full]
  | case7 count b rest text payload room ih =>
    rw [← ih ended]
    simp [ending, text, payload, room]

def Ending.Within (count length : Nat) : Ending → Prop
  | .closed reached terminator =>
      count ≤ reached ∧ 0 < terminator ∧ reached + terminator ≤ count + length
  | .aborted reached | .oversized reached => count ≤ reached ∧ reached ≤ count + length
  | .unfinished => True

theorem Ending.Within.succ {count length : Nat} {e : Ending}
    (within : e.Within (count + 1) length) : e.Within count (length + 1) := by
  cases e <;> simp only [Within] at within ⊢ <;> omega

theorem ending_within (limit count : Nat) (bytes : Bytes) :
    (ending limit count bytes).Within count bytes.length := by
  fun_induction ending limit count bytes with
  | case1 => trivial
  | case2 count rest => simp only [Ending.Within, List.length_cons]; omega
  | case3 => trivial
  | case4 count rest => simp only [Ending.Within, List.length_cons]; omega
  | case5 count next rest => simp only [Ending.Within, List.length_cons]; omega
  | case6 count b rest => simp only [Ending.Within, List.length_cons]; omega
  | case7 count b rest text payload room ih => exact ih.succ

theorem payload_append {limit start : Nat} {code : Option UInt16} {bytes : Bytes} (more : Bytes)
    (ended : payload limit code start bytes ≠ .incomplete) :
    payload limit code start (bytes ++ more) = payload limit code start bytes := by
  have within := ending_within limit 0 bytes
  have same : ending limit 0 (bytes ++ more) = ending limit 0 bytes := by
    apply ending_append
    intro unfinished
    exact ended (by rw [payload, unfinished])
  rw [payload, payload, same]
  cases found : ending limit 0 bytes with
  | closed count terminator =>
    rw [found] at within
    dsimp only
    rw [List.take_append_of_le_length (by have := within.2.2; omega)]
  | aborted | oversized | unfinished => rfl

def Within (length : Nat) : Scan → Prop
  | .envelope e => 0 < e.length ∧ e.length ≤ length
  | .other count => 0 < count ∧ count ≤ length
  | .incomplete | .tooLarge => True

theorem payload_within {limit start length : Nat} {code : Option UInt16} {bytes : Bytes}
    (opened : 0 < start) (within : (ending limit 0 bytes).Within 0 length) :
    (payload limit code start bytes).Within (start + length) := by
  rw [payload]
  cases found : ending limit 0 bytes with
  | closed count terminator =>
    rw [found] at within
    simp only [Ending.Within, Within] at within ⊢
    omega
  | aborted count =>
    rw [found] at within
    simp only [Ending.Within, Within] at within ⊢
    omega
  | oversized count =>
    rw [found] at within
    dsimp only
    split
    · trivial
    · simp only [Ending.Within, Within] at within ⊢
      omega
  | unfinished => trivial

theorem sequence_append {limit : Nat} {bytes : Bytes} (more : Bytes)
    (fits : bytes.all isDigitByte → bytes.length + 2 ≤ limit)
    (decided : sequence limit bytes ≠ .incomplete) :
    sequence limit (bytes ++ more) = sequence limit bytes := by
  cases left : bytes.dropWhile isDigitByte with
  | nil =>
    -- The number may go on, and is too short to be anything else than incomplete.
    have digits : bytes.takeWhile isDigitByte = bytes := by
      have whole := List.takeWhile_append_dropWhile (p := isDigitByte) (l := bytes)
      rwa [left, List.append_nil] at whole
    have short := fits (digits ▸ List.all_takeWhile)
    apply absurd _ decided
    simp only [sequence, left, digits]
    rw [if_neg (by omega)]
  | cons b rest =>
    have ended : (bytes.takeWhile isDigitByte).length ≠ bytes.length := by
      have whole := congrArg List.length
        (List.takeWhile_append_dropWhile (p := isDigitByte) (l := bytes))
      rw [left, List.length_append, List.length_cons] at whole
      omega
    simp only [sequence, left] at decided
    simp only [sequence, List.takeWhile_append, if_neg ended, List.dropWhile_append, left,
      List.isEmpty_cons, Bool.false_eq_true, if_false, List.cons_append]
    by_cases coded : b = semicolon ∧ bytes.takeWhile isDigitByte ≠ []
    · rw [if_pos coded] at decided ⊢
      rw [if_pos coded]
      exact payload_append more decided
    · rw [if_neg coded] at decided ⊢
      rw [if_neg coded]
      exact payload_append more decided

theorem sequence_within (limit : Nat) (bytes : Bytes) :
    (sequence limit bytes).Within (bytes.length + 2) := by
  have whole := congrArg List.length
    (List.takeWhile_append_dropWhile (p := isDigitByte) (l := bytes))
  rw [List.length_append] at whole
  cases left : bytes.dropWhile isDigitByte with
  | nil =>
    simp only [sequence, left]
    split
    · simp only [Within]
      omega
    · trivial
  | cons b rest =>
    rw [left, List.length_cons] at whole
    simp only [sequence, left]
    split
    · have opened : 0 < (bytes.takeWhile isDigitByte).length + 3 := by omega
      rw [show bytes.length + 2 = (bytes.takeWhile isDigitByte).length + 3 + rest.length by omega]
      exact payload_within opened (ending_within limit 0 rest)
    · rw [Nat.add_comm]
      exact payload_within Nat.two_pos (ending_within limit 0 bytes)

end Scan

theorem scan_text (limit : Nat) {b : UInt8} (rest : Bytes) (text : b ≠ esc) :
    scan limit (b :: rest) = .other (1 + (rest.takeWhile (· ≠ esc)).length) :=
  (if_pos text).trans (congrArg Scan.other (lengthBefore_eq esc 1 rest))

theorem scan_escape (limit : Nat) {next : UInt8} (body : Bytes) (other : next ≠ bracket) :
    scan limit (esc :: next :: body) = .other 1 :=
  if_neg other

theorem scan_within (limit : Nat) (input : Bytes) : (scan limit input).Within input.length := by
  cases input with
  | nil => trivial
  | cons b rest =>
    by_cases text : b = esc
    · subst text
      cases rest with
      | nil => trivial
      | cons next body =>
        by_cases opens : next = bracket
        · subst opens
          exact Scan.sequence_within limit body
        · rw [scan_escape limit body opens]
          simp only [Scan.Within, List.length_cons]
          omega
    · rw [scan_text limit rest text]
      have short := (List.takeWhile_prefix (· ≠ esc) (l := rest)).length_le
      simp only [Scan.Within, List.length_cons]
      omega

theorem scan_plain (limit : Nat) {plain : Bytes} (more : Bytes) (some : plain ≠ [])
    (text : esc ∉ plain) :
    scan limit (plain ++ more) = .other (plain.length + (more.takeWhile (· ≠ esc)).length) := by
  cases plain with
  | nil => exact absurd rfl some
  | cons b rest =>
    rw [List.mem_cons, not_or] at text
    rw [List.cons_append, scan_text limit _ (Ne.symm text.1), takeWhile_ne_append text.2,
      List.length_append, List.length_cons]
    congr 1
    omega

/-- An answer is kept when more bytes come, unless it asked for them or is a
run of plain bytes up to the end. -/
theorem scan_append {limit : Nat} {input : Bytes} (more : Bytes)
    (fits : EndFits limit input) (decided : scan limit input ≠ .incomplete) :
    scan limit (input ++ more) = scan limit input ∨
      esc ∉ input ∧ scan limit input = .other input.length := by
  cases input with
  | nil => exact absurd rfl decided
  | cons b rest =>
    by_cases text : b = esc
    · subst text
      left
      cases rest with
      | nil => exact absurd rfl decided
      | cons next body =>
        by_cases opens : next = bracket
        · subst opens
          exact Scan.sequence_append more (fits body List.suffix_rfl) decided
        · exact (scan_escape limit (body ++ more) opens).trans (scan_escape limit body opens).symm
    · by_cases plain : esc ∈ rest
      · left
        rw [List.cons_append, scan_text limit _ text, scan_text limit _ text,
          List.takeWhile_append, if_neg]
        intro whole
        have none := (List.takeWhile_prefix (· ≠ esc) (l := rest)).eq_of_length whole
        have differs := List.all_takeWhile (p := (· ≠ esc)) (l := rest)
        rw [none, List.all_eq_true] at differs
        simpa using differs esc plain
      · right
        have free : esc ∉ b :: rest := by
          rw [List.mem_cons, not_or]
          exact ⟨Ne.symm text, plain⟩
        refine ⟨free, ?_⟩
        simpa using scan_plain limit [] (List.cons_ne_nil b rest) free

end TerminalFeed
