/-
  Converge.Double.Numeral — numbers written in decimal digits, and read from them.

  A numeral is read in two roundings.  As many of its leading digits as fit in 64
  bits make a whole number, which is rounded; the digits left over before the
  point only count for its place.  The result is then multiplied by, or divided
  by, a rounded power of ten.  A number is written with the fewest digits that
  lead back to it, the nearest such decimal first.
-/
import Converge.Double.Basic

namespace Converge

/-- A number as it is written: digits before and after the point, and an exponent. -/
structure Numeral where
  negative : Bool := false
  whole : List Nat
  fraction : List Nat := []
  exponent : Option Int := none
deriving DecidableEq, Repr, Inhabited

namespace Double

/-! ## §1. Scaling by powers of ten -/

/-- The greatest power of ten that is a number. -/
def greatestPower : Nat := 308

/-- The number nearest to a power of ten. -/
def powerOfTen (i : Nat) : Double := (ofRatio? false (Nat.pow 10 i) 1).getD (zero false)

/-- A number divided by the greatest power of ten several times, until nothing is left of it. -/
def lower? : Nat → Double → Option Double
  | 0, x => some x
  | times + 1, x =>
    if x.mantissa = 0 then some x
    else (x.div? (powerOfTen greatestPower)).bind (lower? times)

/-- A number times a power of ten.  A power below the least one is reached by
    dividing by the greatest one first. -/
def scale? (x : Double) (e : Int) : Option Double :=
  if e.natAbs ≤ greatestPower then
    if 0 ≤ e then x.mul? (powerOfTen e.natAbs) else x.div? (powerOfTen e.natAbs)
  else if x.mantissa = 0 then some x
  else if 0 ≤ e then none
  else
    -- what remains of the power is a number itself
    let times := (e.natAbs - 1) / greatestPower
    (lower? times x).bind fun y => y.div? (powerOfTen (e.natAbs - times * greatestPower))

end Double

namespace Numeral

/-! ## §2. Reading -/

/-- The whole numbers that fit in 64 bits end here. -/
def wordLimit : Nat := Nat.pow 2 64

/-- Append digits to a whole number while the result fits in 64 bits; the number
    reached and the digits left over. -/
def gather : Nat → List Nat → Nat × List Nat
  | n, [] => (n, [])
  | n, d :: rest => if 10 * n + d < wordLimit then gather (10 * n + d) rest else (n, d :: rest)

/-- Whether a numeral has neither a fraction nor an exponent. -/
def isPlain (n : Numeral) : Bool := n.fraction.isEmpty && n.exponent.isNone

/-- The whole number a plain numeral stands for: one of 64 bits, with a sign or
    without.  Zero with a minus sign is none. -/
def int? (n : Numeral) : Option Int :=
  let (word, left) := gather 0 n.whole
  if !n.isPlain || !left.isEmpty then none
  else if !n.negative then some word
  else if 0 < word && decide (word ≤ Nat.pow 2 63) then some (-word)
  else none

/-- The floating-point number a numeral stands for; none when it is too large. -/
def double? (n : Numeral) : Option Double := do
  let (word, left) := gather 0 n.whole
  let (word, unused) := gather word n.fraction
  -- digits that no longer fit count for their places alone
  let place : Int := left.length - (n.fraction.length - unused.length) + n.exponent.getD 0
  let x ← Double.ofRatio? false word 1
  let x ← x.scale? place
  pure (if n.negative then x.neg else x)

end Numeral

namespace Double

/-! ## §3. Writing -/

/-- The place of the first decimal digit of a positive quotient. -/
def firstPlace (num den : Nat) : Int :=
  -- a binary place is a little more than 1233 in 4096 of a decimal one
  let guess : Int := ((num.log2 : Int) - den.log2) * 1233 / 4096
  let fits (k : Int) : Bool :=
    if 0 ≤ k then decide (den * Nat.pow 10 k.toNat ≤ num)
    else decide (den ≤ num * Nat.pow 10 (-k).toNat)
  ([guess + 1, guess].find? fits).getD (guess - 1)

/-- A quotient divided by a power of ten, again as a quotient. -/
def atPlace (num den : Nat) (k : Int) : Nat × Nat :=
  if 0 ≤ k then (num, den * Nat.pow 10 k.toNat) else (num * Nat.pow 10 (-k).toNat, den)

/-- Whether `digits · 10 ^ k` leads back to a number, both without their signs. -/
def leadsBack (x : Double) (digits : Nat) (k : Int) : Bool :=
  let (num, den) :=
    if 0 ≤ k then (digits * Nat.pow 10 k.toNat, 1) else (digits, Nat.pow 10 (-k).toNat)
  ofRatio? x.negative num den == some x

/-- The decimal with a given number of digits that leads back to a number: of the
    two next to it the nearer one, and halfway the even one. -/
def withDigits? (x : Double) (first : Int) (count : Nat) : Option (Nat × Int) :=
  let k := first - count + 1
  let (n, d) := atPlace x.ratio.1 x.ratio.2 k
  let below := n / d
  let r := n % d
  let above := below + 1
  let belowFirst := decide (2 * r < d) || (decide (2 * r = d) && below % 2 == 0)
  let order := if belowFirst then [below, above] else [above, below]
  (order.find? fun digits => x.leadsBack digits k).map fun digits => (digits, k)

/-- Digits without zeros at the end, at most `fuel` of them taken off. -/
def withoutZeros : Nat → Nat → Int → Nat × Int
  | 0, digits, k => (digits, k)
  | fuel + 1, digits, k =>
    if digits % 10 = 0 then withoutZeros fuel (digits / 10) (k + 1) else (digits, k)

/-- The fewest digits that lead back to a number other than zero, and their place. -/
def shortest (x : Double) : Nat × Int :=
  let first := firstPlace x.ratio.1 x.ratio.2
  -- seventeen digits always lead back
  let found := (List.range 17).findSome? fun i => x.withDigits? first (i + 1)
  let (digits, k) := found.getD (0, 0)
  withoutZeros 17 digits k

/-- The text of an exponent, with a sign in any case. -/
def exponentText (e : Int) : String := if 0 ≤ e then "+" ++ toString e else toString e

/-- The text of a number: in positions for moderate places, with at least one
    digit after the point, and otherwise with an exponent. -/
def text (x : Double) : String :=
  let sign := if x.negative then "-" else ""
  if x.mantissa = 0 then sign ++ "0.0"
  else
    let (digits, k) := x.shortest
    let cs := (toString digits).toList
    let place : Int := cs.length + k
    let zeros (n : Int) : List Char := List.replicate n.toNat '0'
    let body : List Char :=
      if 0 ≤ k ∧ place ≤ 16 then cs ++ zeros k ++ ['.', '0']
      else if 0 < place ∧ place ≤ 16 then cs.take place.toNat ++ '.' :: cs.drop place.toNat
      else if -5 < place ∧ place ≤ 0 then '0' :: '.' :: zeros (-place) ++ cs
      else cs.take 1 ++ (if cs.length = 1 then [] else '.' :: cs.drop 1)
        ++ 'e' :: (exponentText (place - 1)).toList
    sign ++ String.ofList body

end Double

end Converge
