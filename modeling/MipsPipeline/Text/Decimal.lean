/-
Decimals with a fixed number of places, rounded from the exact value of a binary floating-point
number. A value half-way between two decimals goes to the even one.
-/
namespace MipsPipeline.Text

/-- The nearest integer to a quotient; of two that are equally near, the even one. -/
def roundDiv (numerator denominator : Nat) : Nat :=
  let quotient := numerator / denominator
  let twice := 2 * (numerator % denominator)
  if twice < denominator then quotient
  else if denominator < twice then quotient + 1
  else quotient + quotient % 2

/-- The magnitude `mantissa * 2 ^ exponent` of a finite number, from its 64-bit encoding. -/
def magnitude (bits : UInt64) : Nat × Int :=
  let fraction : Nat := bits.toNat % Nat.pow 2 52
  let biased : Nat := bits.toNat / Nat.pow 2 52 % Nat.pow 2 11
  if biased = 0 then (fraction, -1074) else (Nat.pow 2 52 + fraction, (biased : Int) - 1075)

/-- A number of units of the last place, with the point put in. -/
def placed (places units : Nat) : String :=
  let whole := toString (units / Nat.pow 10 places)
  let rest := (Nat.toDigits 10 (units % Nat.pow 10 places)).leftpad places '0'
  if places = 0 then whole else whole ++ "." ++ String.ofList rest

/-- A finite number that is not negative, with `places` places behind the point. -/
def fixed (places : Nat) (x : Float) : String :=
  let (mantissa, exponent) := magnitude x.toBits
  let scaled := mantissa * Nat.pow 10 places
  placed places <|
    if 0 ≤ exponent then scaled * Nat.pow 2 exponent.toNat
    else roundDiv scaled (Nat.pow 2 (-exponent).toNat)

theorem roundDiv_bounds (n : Nat) {d : Nat} (h : 0 < d) :
    2 * n ≤ 2 * (d * roundDiv n d) + d ∧ 2 * (d * roundDiv n d) ≤ 2 * n + d := by
  have split := Nat.div_add_mod n d
  have small := Nat.mod_lt n h
  simp only [roundDiv]
  split
  · omega
  · split
    · rw [Nat.mul_add]
      omega
    · rcases Nat.mod_two_eq_zero_or_one (n / d) with even | odd
      · rw [even, Nat.add_zero]
        omega
      · rw [odd, Nat.mul_add]
        omega

theorem roundDiv_even_of_tie {n d : Nat} (h : 2 * (n % d) = d) : roundDiv n d % 2 = 0 := by
  simp only [roundDiv, h, Nat.lt_irrefl, ↓reduceIte]
  omega

end MipsPipeline.Text
