/-!
Which decimal fractions are too large for double precision, when they are
rounded once and when their digits and their power of ten are rounded apart.
-/

namespace TerminalFeed.Text

/-- What the digits of an exponent come to. Behind the digit that takes it to
`enough` or more, digits add nothing, so that no exponent is vast. -/
def exponentOf (enough : Nat) (digits : List Char) : Nat :=
  digits.foldl (fun n c => if n < enough then n * 10 + (c.toNat - 48) else n) 0

/-- The least whole number that rounds to infinity: half a unit past the
largest double, where the tie goes up. -/
def firstInfinite : Nat := Nat.pow 2 1024 - Nat.pow 2 970

/-- Whether `digits` times ten to the power `exponent` rounds to infinity. A
whole number bounds the numbers that do, so what stands before the point decides
and no more than 400 places of it are ever read. -/
def roundsToInfinity (digits : List Char) (exponent : Int) : Bool :=
  let digits := digits.dropWhile (· == '0')
  let places := digits.length + exponent
  if digits.isEmpty || places < 300 then false
  else if 400 < places then true
  else
    let whole := digits.take places.toNat
    firstInfinite ≤ Nat.ofDigitChars 10 whole 0 * Nat.pow 10 (places.toNat - whole.length)

/-- The nearest whole number of 53 significant bits, and of two as near the one
whose last bit is clear. -/
def roundToDouble (n : Nat) : Nat :=
  let unit := Nat.pow 2 (n.log2 + 1 - 53)
  let kept := n / unit
  let lost := 2 * (n % unit)
  if unit < lost || (lost == unit && kept % 2 == 1) then (kept + 1) * unit else kept * unit

theorem roundToDouble_of_lt {n : Nat} (h : n < Nat.pow 2 53) : roundToDouble n = n := by
  have bits : n.log2 + 1 - 53 = 0 := by
    by_cases zero : n = 0
    · simp [zero]
    · have := (Nat.log2_lt zero).mpr h
      omega
  simp [roundToDouble, bits, Nat.mod_one]

/-- Whether the product of the doubles nearest to `significand` and to ten to
the power `exponent` rounds to infinity. No double is as large as `10 ^ 309`. -/
def productIsInfinite (significand : Nat) (exponent : Int) : Bool :=
  if significand == 0 || exponent < 0 then false
  else if exponent > 308 then true
  else firstInfinite ≤ roundToDouble significand * roundToDouble (Nat.pow 10 exponent.natAbs)

end TerminalFeed.Text
