/-!
# Binary floating-point numbers

A `Double` is an IEEE 754 binary64 number held as its 64 bits. All
arithmetic on it is exact integer arithmetic on the significand and the
binary exponent, rounded once to nearest, a tie to the even neighbour.
-/

namespace ManifestRules

/-- An IEEE 754 binary64 number, given by its 64 bits. -/
structure Double where
  /-- Sign, eleven exponent bits and fifty-two fraction bits. -/
  bits : UInt64
deriving DecidableEq, Repr, Inhabited

namespace Double

/-- How many fractions there are: two to the power of fifty-two. -/
def fractionCount : Nat := 0x10000000000000

/-- The weight of the sign bit: two to the power of sixty-three. -/
def signWeight : Nat := 0x8000000000000000

/-- The eleven exponent bits. -/
def biased (x : Double) : Nat :=
  x.bits.toNat / fractionCount % 2048

/-- The fifty-two fraction bits. -/
def fraction (x : Double) : Nat :=
  x.bits.toNat % fractionCount

/-- The sign bit. -/
def isNegative (x : Double) : Bool :=
  x.bits.toNat / signWeight == 1

/-- Not a number. -/
def isNaN (x : Double) : Bool :=
  x.biased == 2047 && x.fraction != 0

/-- One of the two infinities. -/
def isInfinite (x : Double) : Bool :=
  x.biased == 2047 && x.fraction == 0

/-- A number, and no infinity. -/
def isFinite (x : Double) : Bool :=
  x.biased != 2047

/-- One of the two zeros. -/
def isZero (x : Double) : Bool :=
  x.biased == 0 && x.fraction == 0

/-- Finite, not zero, and with the implicit leading bit. -/
def isNormal (x : Double) : Bool :=
  x.biased != 0 && x.biased != 2047

/-- The significand of a finite number, an integer below 2^53. -/
def significand (x : Double) : Nat :=
  if x.biased = 0 then x.fraction else fractionCount + x.fraction

/-- The binary exponent that goes with `significand`. -/
def exponent (x : Double) : Int :=
  if x.biased = 0 then -1074 else (x.biased : Int) - 1075

/-- The number with the given sign whose other bits are those of `magnitude`. -/
def ofMagnitude (negative : Bool) (magnitude : Nat) : Double :=
  ⟨UInt64.ofNat (magnitude + if negative then signWeight else 0)⟩

/-- The one quiet value that is not a number. -/
def nan : Double := ⟨0x7FF8000000000000⟩

/-- Infinity with the given sign. -/
def infinity (negative : Bool) : Double :=
  ofMagnitude negative (2047 * fractionCount)

/-- Zero with the given sign. -/
def zero (negative : Bool) : Double :=
  ofMagnitude negative 0

/-- `num / den` rounded to an integer, a tie to the even one. -/
def roundDiv (num den : Nat) : Nat :=
  let quotient := num / den
  let twice := 2 * (num % den)
  if twice < den then quotient
  else if den < twice then quotient + 1
  else if quotient % 2 = 0 then quotient else quotient + 1

/-- `num / den / 2^e` as a pair of naturals again. -/
def scaleDown (num den : Nat) (e : Int) : Nat × Nat :=
  (num * Nat.pow 2 (-e).toNat, den * Nat.pow 2 e.toNat)

/-- The double nearest to `num / den`, a tie to the even one; beyond the
largest one it is infinity. The exponent is chosen so that the rounded
significand has fifty-three bits, or is subnormal. -/
def ofRatio (negative : Bool) (num den : Nat) : Double :=
  if num = 0 then zero negative
  else
    let guess : Int := (num.log2 : Int) - (den.log2 : Int) - 53
    let low : Int := max guess (-1074)
    let (n₀, d₀) := scaleDown num den low
    let e : Int := if n₀ / d₀ < 2 * fractionCount then low else low + 1
    let (n, d) := scaleDown num den e
    let m := roundDiv n d
    if m < fractionCount then ofMagnitude negative m
    else
      let magnitude := (e + 1075).toNat * fractionCount + (m - fractionCount)
      if magnitude < 2047 * fractionCount then ofMagnitude negative magnitude
      else infinity negative

/-- The double nearest to `digits * 10^e`. Exponents far outside the range of
the format are answered without computing the power. -/
def ofDecimal (negative : Bool) (digits : Nat) (e : Int) : Double :=
  if digits = 0 then zero negative
  else
    let size : Int := (digits.log2 * 30103 / 100000 : Nat) + e
    if 310 < size then infinity negative
    else if size < -330 then zero negative
    else ofRatio negative (digits * Nat.pow 10 e.toNat) (Nat.pow 10 (-e).toNat)

/-- The double nearest to an integer. -/
def ofInt (i : Int) : Double :=
  ofRatio (i < 0) i.natAbs 1

/-- Equality of numbers: the zeros are equal, and a value that is not a number
equals nothing. -/
def numEq (x y : Double) : Bool :=
  !x.isNaN && !y.isNaN && (x == y || (x.isZero && y.isZero))

/-- Order of numbers; none when one of the two is not a number. -/
def compare? (x y : Double) : Option Ordering :=
  if x.isNaN || y.isNaN then none
  else
    let place (z : Double) : Int :=
      let magnitude : Int := (z.bits.toNat % signWeight : Nat)
      if z.isNegative then -magnitude else magnitude
    some (compare (place x) (place y))

/-- The same key: as `numEq`, but a value that is not a number equals itself. -/
def sameKey (x y : Double) : Bool :=
  (x.isNaN && y.isNaN) || x.numEq y

end Double

end ManifestRules
