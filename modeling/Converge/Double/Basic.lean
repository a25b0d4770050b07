/-
  Converge.Double.Basic — binary floating-point numbers of 64 bits.

  A number is a sign and a whole mantissa of at most 53 bits times a power of
  two.  Every operation works out the exact result as a quotient of natural
  numbers and rounds it once, to the nearest number and halfway to the even
  mantissa.  Zero has a sign as well, but the two zeros agree.  There are no
  infinities: a result that is too large is no result.

  Main statements: `roundDiv` keeps whole quotients and is never more than half
  a unit away.
-/

namespace Converge

/-- The number `mantissa · 2 ^ exponent`, or its negation. -/
structure Double where
  negative : Bool
  mantissa : Nat
  exponent : Int
deriving DecidableEq, Repr, Inhabited

namespace Double

/-! ## §1. Rounding -/

/-- The quotient of two natural numbers, rounded to the nearest whole number and
    halfway to the even one. -/
def roundDiv (n d : Nat) : Nat :=
  let q := n / d
  let r := n % d
  -- below, above or just at the middle between two whole numbers
  if 2 * r < d then q
  else if d < 2 * r then q + 1
  else if q % 2 = 0 then q else q + 1

/-- A whole quotient is left alone. -/
theorem roundDiv_mul (q d : Nat) (pos : 0 < d) : roundDiv (q * d) d = q := by
  simp [roundDiv, Nat.mul_div_cancel _ pos, pos]

/-- A rounded quotient is at most half a unit below the exact one. -/
theorem le_roundDiv (n d : Nat) (pos : 0 < d) : 2 * n ≤ 2 * (d * roundDiv n d) + d := by
  have whole := Nat.div_add_mod n d
  have small := Nat.mod_lt n pos
  simp only [roundDiv]
  split
  · omega
  · split
    · rw [Nat.mul_add]; omega
    · split
      · omega
      · rw [Nat.mul_add]; omega

/-- A rounded quotient is at most half a unit above the exact one. -/
theorem roundDiv_le (n d : Nat) : 2 * (d * roundDiv n d) ≤ 2 * n + d := by
  have whole := Nat.div_add_mod n d
  simp only [roundDiv]
  split
  · omega
  · split
    · rw [Nat.mul_add]; omega
    · split
      · omega
      · rw [Nat.mul_add]; omega

/-! ## §2. From quotients -/

/-- Zero, with either sign. -/
def zero (negative : Bool) : Double := ⟨negative, 0, 0⟩

/-- The least exponent. -/
def leastExponent : Int := -1074

/-- The greatest exponent. -/
def greatestExponent : Int := 971

/-- The quotient `num / den` divided by `2 ^ e`, again as a quotient. -/
def shifted (num den : Nat) (e : Int) : Nat × Nat :=
  if 0 ≤ e then (num, den * Nat.pow 2 e.toNat) else (num * Nat.pow 2 (-e).toNat, den)

/-- The exponent at which a positive quotient has a mantissa of 53 bits, or the
    least one. -/
def exponentOf (num den : Nat) : Int :=
  -- the logarithms are off by less than one, so the exponent is this one or the next
  let e : Int := num.log2 - den.log2 - 53
  let (n, d) := shifted num den e
  max leastExponent (if n < d * Nat.pow 2 53 then e else e + 1)

/-- The number nearest to `num / den`, negated on demand; none when it is too large. -/
def ofRatio? (negative : Bool) (num den : Nat) : Option Double :=
  if num = 0 then some (zero negative)
  else
    let e := exponentOf num den
    let (n, d) := shifted num den e
    let m := roundDiv n d
    -- rounding may carry into one more bit
    let (m, e) := if m = Nat.pow 2 53 then (Nat.pow 2 52, e + 1) else (m, e)
    if m = 0 then some (zero negative)
    else if greatestExponent < e then none
    else some ⟨negative, m, e⟩

/-! ## §3. Products and quotients -/

/-- The quotient of natural numbers that a number is, its sign left off. -/
def ratio (x : Double) : Nat × Nat :=
  if 0 ≤ x.exponent then (x.mantissa * Nat.pow 2 x.exponent.toNat, 1)
  else (x.mantissa, Nat.pow 2 (-x.exponent).toNat)

/-- The product of two numbers. -/
def mul? (x y : Double) : Option Double :=
  ofRatio? (x.negative != y.negative) (x.ratio.1 * y.ratio.1) (x.ratio.2 * y.ratio.2)

/-- The quotient of two numbers, the second one not zero. -/
def div? (x y : Double) : Option Double :=
  ofRatio? (x.negative != y.negative) (x.ratio.1 * y.ratio.2) (x.ratio.2 * y.ratio.1)

/-- The number with the other sign. -/
def neg (x : Double) : Double := { x with negative := !x.negative }

/-- Whether two numbers are the same number: the signs of zeros do not count. -/
def agrees (x y : Double) : Bool := x == y || (x.mantissa == 0 && y.mantissa == 0)

theorem agrees_refl (x : Double) : x.agrees x = true := by simp [agrees]

end Double

end Converge
