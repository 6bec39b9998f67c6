import ManifestRules.Number.Text
/-!
# Numbers scaled by powers of ten

A float can also be made in two roundings: the digits are rounded first, and the
result is then multiplied or divided by a rounded power of ten. Up to fifteen
digits this is as exact as rounding once. `Double.compareInt` compares a float
with an integer exactly.
-/

namespace ManifestRules.Double

/-- The magnitude of a finite number as a quotient. -/
def ratio (x : Double) : Nat × Nat :=
  (x.significand * Nat.pow 2 x.exponent.toNat, Nat.pow 2 (-x.exponent).toNat)

/-- The product of finite numbers. -/
def mul (x y : Double) : Double :=
  let (a, b) := x.ratio
  let (c, d) := y.ratio
  ofRatio (x.isNegative != y.isNegative) (a * c) (b * d)

/-- The quotient of finite numbers of which the second is not zero. -/
def div (x y : Double) : Double :=
  let (a, b) := x.ratio
  let (c, d) := y.ratio
  ofRatio (x.isNegative != y.isNegative) (a * d) (b * c)

/-- The double nearest to a power of ten. -/
def powerOfTen (k : Nat) : Double := ofDecimal false 1 k

/-- The largest exponent of a power of ten that is no infinity. -/
def maxPower : Nat := 308

/-- Scale by a power of ten, in steps if the power is out of range. Too large a
result is none. -/
def scale : Nat → Double → Int → Option Double
  | 0, x, _ => some x
  | fuel + 1, x, e =>
    if e.natAbs ≤ maxPower then
      if 0 ≤ e then
        let y := x.mul (powerOfTen e.natAbs)
        if y.isFinite then some y else none
      else some (x.div (powerOfTen e.natAbs))
    else if x.isZero then some x
    else if 0 ≤ e then none
    else scale fuel (x.div (powerOfTen maxPower)) (e + maxPower)

/-- Compare an integer with a finite number exactly. -/
def compareInt (i : Int) (x : Double) : Ordering :=
  let (n, d) := x.ratio
  compare (i * d) (if x.isNegative then -(n : Int) else n)

end ManifestRules.Double
