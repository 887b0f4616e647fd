import TerminalFeed.Text.Utf8

/-!
Which bytes are a text: those that encode one, and no others. A character that has begun is
told by the bytes of it that are there, and the byte that completes it makes them its own.
-/

namespace TerminalFeed.Utf8

theorem toNat_ofNat {n : Nat} (valid : n.isValidChar) : (Char.ofNat n).val.toNat = n := by
  rw [Char.ofNat, dif_pos valid]
  rfl

/-- The bytes of a character that has begun, and what they come to. The value tells how
many bytes there are: no form is overlong. -/
inductive Begins : Bytes → Partial → Prop
  | oneOfTwo {v : Nat} (low : 2 ≤ v) (high : v < 32) :
      Begins [UInt8.ofNat (v + 0xC0)] ⟨1, 0x80, 0xBF, v⟩
  | oneOfThree {v : Nat} (high : v < 16) :
      Begins [UInt8.ofNat (v + 0xE0)]
        ⟨2, if v = 0 then 0xA0 else 0x80, if v = 13 then 0x9F else 0xBF, v⟩
  | twoOfThree {v : Nat} (low : 0x20 ≤ v) (high : v < 0x400) (scalar : v < 0x360 ∨ 0x37F < v) :
      Begins [UInt8.ofNat (v / 64 + 0xE0), UInt8.ofNat (v % 64 + 0x80)] ⟨1, 0x80, 0xBF, v⟩
  | oneOfFour {v : Nat} (high : v < 5) :
      Begins [UInt8.ofNat (v + 0xF0)]
        ⟨3, if v = 0 then 0x90 else 0x80, if v = 4 then 0x8F else 0xBF, v⟩
  | twoOfFour {v : Nat} (low : 0x10 ≤ v) (high : v < 0x110) :
      Begins [UInt8.ofNat (v / 64 + 0xF0), UInt8.ofNat (v % 64 + 0x80)] ⟨2, 0x80, 0xBF, v⟩
  | threeOfFour {v : Nat} (low : 0x400 ≤ v) (high : v < 0x4400) :
      Begins [UInt8.ofNat (v / 4096 + 0xF0), UInt8.ofNat (v / 64 % 64 + 0x80),
        UInt8.ofNat (v % 64 + 0x80)] ⟨1, 0x80, 0xBF, v⟩

theorem begins_lead {b : UInt8} {part : Partial} (lead : Partial.ofLead? b = some part) :
    Begins [b] part := by
  have two (low : 0xC2 ≤ b.toNat) (high : b.toNat ≤ 0xDF) :
      Begins [b] ⟨1, 0x80, 0xBF, b.toNat - 0xC0⟩ := by
    have begins := Begins.oneOfTwo (v := b.toNat - 0xC0) (by omega) (by omega)
    rwa [Nat.sub_add_cancel (by omega), UInt8.ofNat_toNat] at begins
  have three (low : 0xE0 ≤ b.toNat) (high : b.toNat ≤ 0xEF) : Begins [b]
      ⟨2, if b.toNat - 0xE0 = 0 then 0xA0 else 0x80, if b.toNat - 0xE0 = 13 then 0x9F else 0xBF,
        b.toNat - 0xE0⟩ := by
    have begins := Begins.oneOfThree (v := b.toNat - 0xE0) (by omega)
    rwa [Nat.sub_add_cancel (by omega), UInt8.ofNat_toNat] at begins
  have four (low : 0xF0 ≤ b.toNat) (high : b.toNat ≤ 0xF4) : Begins [b]
      ⟨3, if b.toNat - 0xF0 = 0 then 0x90 else 0x80, if b.toNat - 0xF0 = 4 then 0x8F else 0xBF,
        b.toNat - 0xF0⟩ := by
    have begins := Begins.oneOfFour (v := b.toNat - 0xF0) (by omega)
    rwa [Nat.sub_add_cancel (by omega), UInt8.ofNat_toNat] at begins
  unfold Partial.ofLead? at lead
  simp only [Bool.and_eq_true, decide_eq_true_eq, UInt8.le_iff_toNat_le, beq_iff_eq,
    ← UInt8.toNat_inj, UInt8.reduceToNat] at lead
  split at lead
  · cases lead
    exact two (by omega) (by omega)
  split at lead
  · cases lead
    simpa [*] using three (by omega) (by omega)
  split at lead
  · cases lead
    simpa [*] using three (by omega) (by omega)
  split at lead
  · cases lead
    have begins := three (by omega) (by omega)
    rwa [if_neg (by omega), if_neg (by omega)] at begins
  split at lead
  · cases lead
    simpa [*] using four (by omega) (by omega)
  split at lead
  · cases lead
    have begins := four (by omega) (by omega)
    rwa [if_neg (by omega), if_neg (by omega)] at begins
  split at lead
  · cases lead
    simpa [*] using four (by omega) (by omega)
  · cases lead

theorem Begins.further {front : Bytes} {part : Partial} (begins : Begins front part) {b : UInt8}
    (low : part.low.toNat ≤ b.toNat) (high : b.toNat ≤ part.high.toNat) (owed : part.owed ≠ 1) :
    Begins (front ++ [b]) ⟨part.owed - 1, 0x80, 0xBF, part.value * 64 + (b.toNat - 0x80)⟩ := by
  have same (low : 0x80 ≤ b.toNat) (high : b.toNat ≤ 0xBF) (v : Nat) :
      (v * 64 + (b.toNat - 0x80)) / 64 = v ∧
        UInt8.ofNat ((v * 64 + (b.toNat - 0x80)) % 64 + 0x80) = b := by
    refine ⟨by omega, ?_⟩
    rw [show (v * 64 + (b.toNat - 0x80)) % 64 + 0x80 = b.toNat by omega, UInt8.ofNat_toNat]
  cases begins with
  | oneOfTwo | twoOfThree | threeOfFour => exact absurd rfl owed
  | @oneOfThree v bound =>
    have bounds : 0x80 ≤ b.toNat ∧ b.toNat ≤ 0xBF ∧ (v = 0 → 0xA0 ≤ b.toNat) ∧
        (v = 13 → b.toNat ≤ 0x9F) := by
      dsimp only at low high
      split at low <;> split at high <;> simp at low high <;> omega
    have begins := Begins.twoOfThree (v := v * 64 + (b.toNat - 0x80)) (by omega) (by omega)
      (by omega)
    rwa [(same (by omega) (by omega) v).1, (same (by omega) (by omega) v).2] at begins
  | @oneOfFour v bound =>
    have bounds : 0x80 ≤ b.toNat ∧ b.toNat ≤ 0xBF ∧ (v = 0 → 0x90 ≤ b.toNat) ∧
        (v = 4 → b.toNat ≤ 0x8F) := by
      dsimp only at low high
      split at low <;> split at high <;> simp at low high <;> omega
    have begins := Begins.twoOfFour (v := v * 64 + (b.toNat - 0x80)) (by omega) (by omega)
    rwa [(same (by omega) (by omega) v).1, (same (by omega) (by omega) v).2] at begins
  | @twoOfFour v above below =>
    simp at low high
    have begins := Begins.threeOfFour (v := v * 64 + (b.toNat - 0x80)) (by omega) (by omega)
    rwa [(same low high v).1, (same low high v).2,
      show (v * 64 + (b.toNat - 0x80)) / 4096 = v / 64 by omega] at begins

theorem Begins.last {front : Bytes} {part : Partial} (begins : Begins front part) {b : UInt8}
    (low : part.low.toNat ≤ b.toNat) (high : b.toNat ≤ part.high.toNat) (owed : part.owed = 1) :
    String.utf8EncodeChar (Char.ofNat (part.value * 64 + (b.toNat - 0x80))) = front ++ [b] := by
  cases begins with
  | oneOfThree | oneOfFour | twoOfFour => cases owed
  | @oneOfTwo v above below =>
    simp at low high
    rw [String.utf8EncodeChar, toNat_ofNat (by simp only [Nat.isValidChar]; omega)]
    dsimp only
    rw [if_neg (by omega), if_pos (by omega)]
    rw [show (v * 64 + (b.toNat - 0x80)) / 64 % 32 = v by omega,
      show (v * 64 + (b.toNat - 0x80)) % 64 + 128 = b.toNat by omega, UInt8.ofNat_toNat]
    rfl
  | @twoOfThree v above below scalar =>
    simp at low high
    rw [String.utf8EncodeChar, toNat_ofNat (by simp only [Nat.isValidChar]; omega)]
    dsimp only
    rw [if_neg (by omega), if_neg (by omega), if_pos (by omega)]
    rw [show (v * 64 + (b.toNat - 0x80)) / 4096 % 16 = v / 64 by omega,
      show (v * 64 + (b.toNat - 0x80)) / 64 % 64 = v % 64 by omega,
      show (v * 64 + (b.toNat - 0x80)) % 64 + 128 = b.toNat by omega, UInt8.ofNat_toNat]
    rfl
  | @threeOfFour v above below =>
    simp at low high
    rw [String.utf8EncodeChar, toNat_ofNat (by simp only [Nat.isValidChar]; omega)]
    dsimp only
    rw [if_neg (by omega), if_neg (by omega), if_neg (by omega)]
    rw [show (v * 64 + (b.toNat - 0x80)) / 262144 % 8 = v / 4096 by omega,
      show (v * 64 + (b.toNat - 0x80)) / 4096 % 64 = v / 64 % 64 by omega,
      show (v * 64 + (b.toNat - 0x80)) / 64 % 64 = v % 64 by omega,
      show (v * 64 + (b.toNat - 0x80)) % 64 + 128 = b.toNat by omega, UInt8.ofNat_toNat]
    rfl

inductive Reads : Bytes → Decoding → Prop
  | whole (text : List Char) : Reads (encode text) ⟨(text.map some).reverse, none⟩
  | begun (text : List Char) {front : Bytes} {part : Partial} (begins : Begins front part) :
      Reads (encode text ++ front) ⟨(text.map some).reverse, some part⟩

theorem mem_read_start {read : List (Option Char)} {c : Option Char} (member : c ∈ read)
    (b : UInt8) : c ∈ (Decoding.start read b).read := by
  unfold Decoding.start
  split
  · exact .tail _ member
  · split
    · exact member
    · exact .tail _ member

theorem mem_read_foldl {d : Decoding} {c : Option Char} (member : c ∈ d.read) (bytes : Bytes) :
    c ∈ (bytes.foldl Decoding.feed d).read := by
  induction bytes generalizing d with
  | nil => exact member
  | cons b rest ih =>
    apply ih
    unfold Decoding.feed
    split
    · exact mem_read_start member b
    · split
      · dsimp only
        split
        · exact .tail _ member
        · exact member
      · exact mem_read_start (.tail _ member) b

theorem reads_start (text : List Char) (b : UInt8) :
    none ∈ (Decoding.start (text.map some).reverse b).read ∨
      Reads (encode text ++ [b]) (Decoding.start (text.map some).reverse b) := by
  unfold Decoding.start
  split
  · right
    rename_i ascii
    rw [UInt8.lt_iff_toNat_lt] at ascii
    simp only [UInt8.reduceToNat] at ascii
    have reads := Reads.whole (text ++ [Char.ofNat b.toNat])
    have one : encode [Char.ofNat b.toNat] = [b] := by
      rw [encode_ascii, List.map_singleton]
      · rw [← Char.toNat_val, toNat_ofNat (.inl (by omega)), UInt8.ofNat_toNat]
      · intro c member
        rw [List.mem_singleton.mp member, ← Char.toNat_val, toNat_ofNat (.inl (by omega))]
        exact ascii
    rw [encode_append, one] at reads
    simpa using reads
  · split
    · rename_i part lead
      exact .inr (.begun text (begins_lead lead))
    · exact .inl (.head _)

theorem Reads.feed {bytes : Bytes} {d : Decoding} (reads : Reads bytes d) (b : UInt8) :
    none ∈ (d.feed b).read ∨ Reads (bytes ++ [b]) (d.feed b) := by
  cases reads with
  | whole text => exact reads_start text b
  | @begun text front part begins =>
    unfold Decoding.feed
    dsimp only
    split
    · rename_i bounds
      simp only [Bool.and_eq_true, decide_eq_true_eq, UInt8.le_iff_toNat_le] at bounds
      right
      split
      · rename_i owed
        have last := begins.last bounds.1 bounds.2 (by simpa using owed)
        have reads := Reads.whole (text ++ [Char.ofNat (part.value * 64 + (b.toNat - 0x80))])
        rw [encode_append, encode, encode, List.flatMap_singleton, last, ← encode,
          ← List.append_assoc] at reads
        simpa using reads
      · rename_i owed
        rw [List.append_assoc]
        exact .begun text (begins.further bounds.1 bounds.2 (by simpa using owed))
    · exact .inl (mem_read_start (.head _) b)

theorem Reads.foldl {front : Bytes} {d : Decoding} (reads : Reads front d) (bytes : Bytes) :
    none ∈ (bytes.foldl Decoding.feed d).read ∨
      Reads (front ++ bytes) (bytes.foldl Decoding.feed d) := by
  induction bytes generalizing front d with
  | nil => exact .inr (by rwa [List.append_nil])
  | cons b rest ih =>
    rcases reads.feed b with broken | reads
    · exact .inl (mem_read_foldl broken rest)
    · rw [← List.singleton_append, ← List.append_assoc]
      exact ih reads

/-- A text is read from its own bytes only. -/
theorem decode?_eq_some_iff {bytes : Bytes} {text : List Char} :
    decode? bytes = some text ↔ bytes = encode text := by
  constructor
  · intro found
    have reads : Reads [] .empty := .whole []
    rw [decode?] at found
    obtain ⟨sound, same⟩ := Option.ite_none_right_eq_some.mp found
    rw [List.all_eq_true] at sound
    rcases reads.foldl bytes with broken | reads
    · have member : none ∈ scalars bytes := by
        unfold scalars Decoding.finish
        split <;> simp [broken]
      exact absurd (sound none member) (by decide)
    · rw [List.nil_append] at reads
      unfold scalars at sound same
      generalize bytes.foldl Decoding.feed .empty = d at reads sound same
      cases reads with
      | whole read =>
        have same : read = text := by
          simpa [Decoding.finish, List.filterMap_map, Function.comp_def] using same
        rw [same]
      | @begun read front part begins =>
        have member : none ∈ Decoding.finish ⟨(read.map some).reverse, some part⟩ := by
          simp [Decoding.finish]
        exact absurd (sound none member) (by decide)
  · rintro rfl
    exact decode?_encode text

end TerminalFeed.Utf8
