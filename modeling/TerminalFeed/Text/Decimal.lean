/-!
Whole numbers in decimal: ASCII digits, with a sign where one is allowed.
Readers refuse a number outside the range asked for, and read what is printed.
-/

namespace TerminalFeed.Decimal

def print (n : Nat) : List Char :=
  Nat.toDigits 10 n

def printInt : Int → List Char
  | .ofNat n => print n
  | .negSucc n => '-' :: print (n + 1)

def natural? (digits : List Char) : Option Nat :=
  if !digits.isEmpty && digits.all Char.isDigit then
    some (Nat.ofDigitChars 10 digits 0)
  else none

/-- What the digits of a base come to behind `n`, if that is at most `most`. A
number only grows with its digits, so reading stops where it is more. -/
def spell? (base most : Nat) (n : Nat) : List Nat → Option Nat
  | [] => if n ≤ most then some n else none
  | digit :: rest => if n ≤ most then spell? base most (base * n + digit) rest else none

def atMost? (most : Nat) (digits : List Char) : Option Nat :=
  if !digits.isEmpty && digits.all Char.isDigit then
    spell? 10 most 0 (digits.map fun c => c.toNat - '0'.toNat)
  else none

/-- A number of at most `most`, which may carry a plus sign. -/
def unsigned? (most : Nat) (text : List Char) : Option Nat :=
  match text with
  | '+' :: rest => atMost? most rest
  | _ => atMost? most text

def integer? (text : List Char) : Option Int :=
  match text with
  | '-' :: rest => (natural? rest).map fun n => -(n : Int)
  | '+' :: rest => (natural? rest).map Int.ofNat
  | _ => (natural? text).map Int.ofNat

def int32? (text : List Char) : Option Int32 :=
  let read : Option Int := match text with
    | '-' :: rest => (atMost? 2147483648 rest).map fun n => -(n : Int)
    | '+' :: rest => (atMost? 2147483647 rest).map Int.ofNat
    | _ => (atMost? 2147483647 text).map Int.ofNat
  read.map Int32.ofInt

/-- The largest size: counts and lengths are 64-bit words. -/
def maxSize : Nat := 18446744073709551615

def size? (text : List Char) : Option Nat :=
  unsigned? maxSize text

/-! A reader with a bound reads what one without it does, up to the bound. -/

theorem le_foldl_spell {base n : Nat} (positive : 0 < base) (digits : List Nat) :
    n ≤ digits.foldl (fun n digit => base * n + digit) n := by
  induction digits generalizing n with
  | nil => exact Nat.le_refl n
  | cons digit rest ih =>
    have grown : n ≤ base * n + digit :=
      Nat.le_trans (Nat.le_mul_of_pos_left n positive) (Nat.le_add_right _ _)
    exact Nat.le_trans grown ih

theorem spell?_eq {base most n : Nat} (positive : 0 < base) (digits : List Nat) :
    spell? base most n digits
      = (some (digits.foldl (fun n digit => base * n + digit) n)).filter (· ≤ most) := by
  induction digits generalizing n with
  | nil => simp [spell?, Option.filter_some]
  | cons digit rest ih =>
    rw [spell?, List.foldl_cons]
    split
    · exact ih
    · have grown := le_foldl_spell (n := n) positive (digit :: rest)
      rw [List.foldl_cons] at grown
      rw [Option.filter_some, if_neg (by simp; omega)]

theorem atMost?_eq (most : Nat) (digits : List Char) :
    atMost? most digits = (natural? digits).filter (· ≤ most) := by
  unfold atMost? natural?
  split
  · rw [spell?_eq (by decide), List.foldl_map]
    rfl
  · rfl

theorem int32?_eq (text : List Char) :
    int32? text
      = ((integer? text).filter fun n => -2147483648 ≤ n && n ≤ 2147483647).map Int32.ofInt := by
  unfold int32? integer?
  split
  all_goals
    rw [atMost?_eq]
    cases natural? _ with
    | none => rfl
    | some n =>
      simp only [Option.filter_some, Option.map_some]
      grind

/-! What is printed is read back. -/

theorem all_isDigit_print (n : Nat) : (print n).all Char.isDigit = true :=
  List.all_eq_true.mpr fun _ member =>
    Nat.isDigit_of_mem_toDigits (by decide) (by decide) member

@[simp] theorem natural?_print (n : Nat) : natural? (print n) = some n := by
  have digits := all_isDigit_print n
  have nonempty : (print n).isEmpty = false := List.isEmpty_eq_false_iff.mpr Nat.toDigits_ne_nil
  rw [natural?, digits, nonempty]
  exact congrArg some Nat.ofDigitChars_ten_toDigits

/-- A printed number starts with a digit, and so with no sign. -/
theorem print_eq_cons (n : Nat) : ∃ c rest, print n = c :: rest ∧ c ≠ '-' ∧ c ≠ '+' := by
  have digits := List.all_eq_true.mp (all_isDigit_print n)
  match same : print n with
  | [] => exact absurd same Nat.toDigits_ne_nil
  | c :: rest =>
    have digit : c.isDigit = true := digits c (by simp [same])
    refine ⟨c, rest, rfl, ?_, ?_⟩ <;> rintro rfl <;> exact absurd digit (by decide)

theorem integer?_cons {c : Char} {rest : List Char} (minus : c ≠ '-') (plus : c ≠ '+') :
    integer? (c :: rest) = (natural? (c :: rest)).map Int.ofNat := by
  unfold integer?
  split <;> simp_all

@[simp] theorem integer?_printInt (n : Int) : integer? (printInt n) = some n := by
  match n with
  | .negSucc m => rw [printInt, integer?, natural?_print]; rfl
  | .ofNat m =>
    obtain ⟨c, rest, same, minus, plus⟩ := print_eq_cons m
    rw [printInt, same, integer?_cons minus plus, ← same, natural?_print]; rfl

theorem printInt_ne_nil (n : Int) : printInt n ≠ [] := by
  cases n with
  | ofNat n => exact Nat.toDigits_ne_nil
  | negSucc n => exact List.cons_ne_nil _ _

theorem mem_printInt {n : Int} {c : Char} (member : c ∈ printInt n) : c = '-' ∨ c.isDigit := by
  cases n with
  | ofNat n => exact .inr (List.all_eq_true.mp (all_isDigit_print n) c member)
  | negSucc n =>
    rw [printInt, List.mem_cons] at member
    exact member.imp_right (List.all_eq_true.mp (all_isDigit_print _) c)

theorem int32?_printInt (n : Int32) : int32? (printInt n.toInt) = some n := by
  have low := n.le_toInt
  have high := n.toInt_lt
  rw [int32?_eq, integer?_printInt, Option.filter_some, if_pos (by simp; omega),
    Option.map_some, Int32.ofInt_toInt]

end TerminalFeed.Decimal
