/-!
Text as bytes. Decoding reads one byte at a time and replaces each maximal
ill-formed part by U+FFFD; `decode?` refuses a text with such a part. Both give
back what was encoded.
-/

namespace TerminalFeed

abbrev Bytes := List UInt8

namespace Utf8

def encode (text : List Char) : Bytes :=
  text.flatMap String.utf8EncodeChar

/-- A character whose last `owed` bytes are still to come. The next of them
lies between `low` and `high`, which rules out overlong forms, surrogates and
values past U+10FFFF at the second byte. -/
structure Partial where
  owed : Nat
  low : UInt8
  high : UInt8
  value : Nat
  deriving DecidableEq

def Partial.ofLead? (b : UInt8) : Option Partial :=
  if 0xC2 ≤ b && b ≤ 0xDF then some ⟨1, 0x80, 0xBF, b.toNat - 0xC0⟩
  else if b == 0xE0 then some ⟨2, 0xA0, 0xBF, 0⟩
  else if b == 0xED then some ⟨2, 0x80, 0x9F, 0xD⟩
  else if 0xE1 ≤ b && b ≤ 0xEF then some ⟨2, 0x80, 0xBF, b.toNat - 0xE0⟩
  else if b == 0xF0 then some ⟨3, 0x90, 0xBF, 0⟩
  else if 0xF1 ≤ b && b ≤ 0xF3 then some ⟨3, 0x80, 0xBF, b.toNat - 0xF0⟩
  else if b == 0xF4 then some ⟨3, 0x80, 0x8F, 4⟩
  else none

/-- The characters read so far, last first, with `none` for an ill-formed
part, and the character being read. -/
structure Decoding where
  read : List (Option Char)
  begun? : Option Partial

def Decoding.empty : Decoding := ⟨[], none⟩

def Decoding.start (read : List (Option Char)) (b : UInt8) : Decoding :=
  if b < 0x80 then ⟨some (Char.ofNat b.toNat) :: read, none⟩
  else match Partial.ofLead? b with
    | some part => ⟨read, some part⟩
    | none => ⟨none :: read, none⟩

def Decoding.feed (d : Decoding) (b : UInt8) : Decoding :=
  match d.begun? with
  | none => start d.read b
  | some part =>
    if part.low ≤ b && b ≤ part.high then
      let value := part.value * 64 + (b.toNat - 0x80)
      if part.owed == 1 then ⟨some (Char.ofNat value) :: d.read, none⟩
      else ⟨d.read, some ⟨part.owed - 1, 0x80, 0xBF, value⟩⟩
    else start (none :: d.read) b

def Decoding.finish (d : Decoding) : List (Option Char) :=
  match d.begun? with
  | none => d.read.reverse
  | some _ => (none :: d.read).reverse

def scalars (bytes : Bytes) : List (Option Char) :=
  (bytes.foldl Decoding.feed Decoding.empty).finish

/-- The text of any bytes, with U+FFFD for each ill-formed part. -/
def decodeLossy (bytes : Bytes) : List Char :=
  (scalars bytes).map (·.getD '\uFFFD')

def decode? (bytes : Bytes) : Option (List Char) :=
  let read := scalars bytes
  if read.all Option.isSome then some (read.filterMap id) else none

/-! What is encoded is read back. -/

theorem ofLead?_two {n : Nat} (low : 2 ≤ n) (high : n < 32) :
    Partial.ofLead? (UInt8.ofNat (n + 0xC0)) = some ⟨1, 0x80, 0xBF, n⟩ := by
  revert low; revert n; decide

theorem ofLead?_three {n : Nat} (high : n < 16) :
    Partial.ofLead? (UInt8.ofNat (n + 0xE0)) =
      some ⟨2, if n = 0 then 0xA0 else 0x80, if n = 13 then 0x9F else 0xBF, n⟩ := by
  revert n; decide

theorem ofLead?_four {n : Nat} (high : n < 5) :
    Partial.ofLead? (UInt8.ofNat (n + 0xF0)) =
      some ⟨3, if n = 0 then 0x90 else 0x80, if n = 4 then 0x8F else 0xBF, n⟩ := by
  revert n; decide

theorem Decoding.feed_none (read : List (Option Char)) (b : UInt8) :
    Decoding.feed ⟨read, none⟩ b = Decoding.start read b := rfl

theorem start_ascii (read : List (Option Char)) {n : Nat} (h : n < 0x80) :
    Decoding.start read (UInt8.ofNat n) = ⟨some (Char.ofNat n) :: read, none⟩ := by
  have small : UInt8.ofNat n < 0x80 := by
    rw [UInt8.lt_iff_toNat_lt, UInt8.toNat_ofNat']; simp only [UInt8.reduceToNat]; omega
  rw [Decoding.start, if_pos small, UInt8.toNat_ofNat', Nat.mod_eq_of_lt (by omega)]

theorem start_lead (read : List (Option Char)) {n : Nat} {part : Partial} (low : 0x80 ≤ n)
    (high : n < 0x100) (h : Partial.ofLead? (UInt8.ofNat n) = some part) :
    Decoding.start read (UInt8.ofNat n) = ⟨read, some part⟩ := by
  have large : ¬UInt8.ofNat n < 0x80 := by
    rw [UInt8.lt_iff_toNat_lt, UInt8.toNat_ofNat']; simp only [UInt8.reduceToNat]; omega
  rw [Decoding.start, if_neg large, h]

theorem feed_further (read : List (Option Char)) (part : Partial) {n : Nat} (small : n < 64)
    (low : part.low.toNat ≤ n + 0x80) (high : n + 0x80 ≤ part.high.toNat) :
    Decoding.feed ⟨read, some part⟩ (UInt8.ofNat (n + 0x80)) =
      if part.owed = 1 then ⟨some (Char.ofNat (part.value * 64 + n)) :: read, none⟩
      else ⟨read, some ⟨part.owed - 1, 0x80, 0xBF, part.value * 64 + n⟩⟩ := by
  have value : (UInt8.ofNat (n + 0x80)).toNat = n + 0x80 := by
    rw [UInt8.toNat_ofNat']; omega
  simp only [Decoding.feed, UInt8.le_iff_toNat_le, value, low, high, decide_true, Bool.and_self,
    if_true, beq_iff_eq, Nat.add_sub_cancel]

theorem foldl_feed_encodeChar (read : List (Option Char)) (c : Char) :
    (String.utf8EncodeChar c).foldl Decoding.feed ⟨read, none⟩ = ⟨some c :: read, none⟩ := by
  have valid : c.val.toNat < 0xD800 ∨ 0xDFFF < c.val.toNat ∧ c.val.toNat < 0x110000 := c.valid
  have same : Char.ofNat c.val.toNat = c := Char.ofNat_toNat c
  unfold String.utf8EncodeChar
  generalize c.val.toNat = v at valid same
  subst same
  simp only []
  split
  · simp only [List.foldl_cons, List.foldl_nil]
    exact start_ascii read (by omega)
  split
  · have lead := start_lead read (by omega) (by omega)
      (ofLead?_two (n := v / 64 % 0x20) (by omega) (by omega))
    simp only [List.foldl_cons, List.foldl_nil, Decoding.feed_none, lead]
    rw [feed_further _ _ (by omega) (by simp) (by simp; omega)]
    simp only [if_true]
    rw [show v / 64 % 32 * 64 + v % 64 = v by omega]
  split
  · have lead := start_lead read (by omega) (by omega)
      (ofLead?_three (n := v / 4096 % 0x10) (by omega))
    simp only [List.foldl_cons, List.foldl_nil, Decoding.feed_none, lead]
    rw [feed_further _ _ (by omega) (by dsimp only; split <;> simp <;> omega)
      (by dsimp only; split <;> simp <;> omega)]
    simp only [Nat.reduceEqDiff, if_false]
    rw [feed_further _ _ (by omega) (by simp) (by simp; omega)]
    simp only [Nat.add_one_sub_one, if_true]
    rw [show (v / 4096 % 16 * 64 + v / 64 % 64) * 64 + v % 64 = v by omega]
  · have lead := start_lead read (by omega) (by omega)
      (ofLead?_four (n := v / 262144 % 0x08) (by omega))
    simp only [List.foldl_cons, List.foldl_nil, Decoding.feed_none, lead]
    rw [feed_further _ _ (by omega) (by dsimp only; split <;> simp <;> omega)
      (by dsimp only; split <;> simp <;> omega)]
    simp only [Nat.reduceEqDiff, if_false]
    rw [feed_further _ _ (by omega) (by simp) (by simp; omega)]
    simp only [Nat.reduceEqDiff, Nat.add_one_sub_one, if_false]
    rw [feed_further _ _ (by omega) (by simp) (by simp; omega)]
    simp only [Nat.add_one_sub_one, if_true]
    rw [show ((v / 262144 % 8 * 64 + v / 4096 % 64) * 64 + v / 64 % 64) * 64 + v % 64 = v by omega]

theorem foldl_feed_encode (read : List (Option Char)) (text : List Char) :
    (encode text).foldl Decoding.feed ⟨read, none⟩ = ⟨(text.map some).reverse ++ read, none⟩ := by
  induction text generalizing read with
  | nil => rfl
  | cons c rest ih =>
    rw [encode, List.flatMap_cons, List.foldl_append, foldl_feed_encodeChar]
    simpa [encode] using ih (some c :: read)

@[simp] theorem scalars_encode (text : List Char) : scalars (encode text) = text.map some := by
  simp [scalars, Decoding.empty, foldl_feed_encode, Decoding.finish]

@[simp] theorem decodeLossy_encode (text : List Char) : decodeLossy (encode text) = text := by
  simp [decodeLossy, Function.comp_def]

@[simp] theorem decode?_encode (text : List Char) : decode? (encode text) = some text := by
  simp [decode?, List.filterMap_map, Function.comp_def]

@[simp] theorem encode_append (text more : List Char) :
    encode (text ++ more) = encode text ++ encode more :=
  List.flatMap_append

theorem encode_ascii {text : List Char} (ascii : ∀ c ∈ text, c.toNat < 0x80) :
    encode text = text.map fun c => UInt8.ofNat c.toNat := by
  induction text with
  | nil => rfl
  | cons c rest ih =>
    have small : c.val.toNat ≤ 127 := Nat.le_of_lt_succ (ascii c (.head _))
    have one : String.utf8EncodeChar c = [UInt8.ofNat c.toNat] := by
      simp only [String.utf8EncodeChar]
      rw [if_pos small]
      rfl
    rw [encode, List.flatMap_cons, one, List.map_cons]
    exact congrArg _ (ih fun c member => ascii c (.tail _ member))

theorem mem_of_mem_encode {text : List Char} {b : UInt8} (member : b ∈ encode text)
    (small : b < 0x80) : Char.ofNat b.toNat ∈ text := by
  obtain ⟨c, inside, bytes⟩ := List.mem_flatMap.mp member
  have same : Char.ofNat b.toNat = c := by
    have whole : Char.ofNat c.val.toNat = c := Char.ofNat_toNat c
    rw [UInt8.lt_iff_toNat_lt] at small
    simp only [UInt8.reduceToNat] at small
    unfold String.utf8EncodeChar at bytes
    generalize c.val.toNat = v at bytes whole
    subst whole
    simp only [] at bytes
    split at bytes
    · rw [List.mem_singleton.mp bytes, UInt8.toNat_ofNat', Nat.mod_eq_of_lt (by omega)]
    · -- Every byte of a longer character is 128 at least.
      exfalso
      split at bytes
      · simp only [List.mem_cons, List.not_mem_nil, or_false] at bytes
        rcases bytes with rfl | rfl <;> rw [UInt8.toNat_ofNat'] at small <;> omega
      split at bytes
      · simp only [List.mem_cons, List.not_mem_nil, or_false] at bytes
        rcases bytes with rfl | rfl | rfl <;> rw [UInt8.toNat_ofNat'] at small <;> omega
      · simp only [List.mem_cons, List.not_mem_nil, or_false] at bytes
        rcases bytes with rfl | rfl | rfl | rfl <;> rw [UInt8.toNat_ofNat'] at small <;> omega
  exact same ▸ inside

end Utf8

end TerminalFeed
