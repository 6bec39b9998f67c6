import ManifestRules.Number.Double
/-!
# The fewest decimal digits that read back

`Double.shortest?` gives the decimal with the fewest digits among those that
round to a given finite number, and of two such decimals the nearer one. It
searches the decimal grids from one digit upwards; on each grid only the two
neighbours of the value can be nearest. The interval of the reals that round
to the value is compared in exact integer arithmetic.
-/

namespace ManifestRules

/-- The decimal `digits * 10^exponent`. -/
structure Decimal where
  /-- All digits, read as one natural number. -/
  digits : Nat
  /-- The power of ten. -/
  exponent : Int
deriving DecidableEq, Repr

namespace Decimal

/-- Compare `a * 10^i` with `n * 2^j` exactly. -/
def compareScaled (a : Nat) (i : Int) (n : Nat) (j : Int) : Ordering :=
  compare (a * Nat.pow 10 i.toNat * Nat.pow 2 (-j).toNat)
    (n * Nat.pow 2 j.toNat * Nat.pow 10 (-i).toNat)

/-- Move trailing zeros of the digits into the exponent. -/
def strip : Nat → Decimal → Decimal
  | 0, d => d
  | fuel + 1, d =>
    if d.digits % 10 = 0 ∧ d.digits ≠ 0 then
      strip fuel ⟨d.digits / 10, d.exponent + 1⟩
    else d

end Decimal

namespace Double

/-- The decimal lies among the reals that round to the finite number `x`. The
interval ends halfway to either neighbour and holds its ends when the
significand is even; below a power of two the lower neighbour is nearer. -/
def readsBack (x : Double) (d : Decimal) : Bool :=
  let m := x.significand
  let low := if x.fraction = 0 ∧ 1 < x.biased then 4 * m - 1 else 4 * m - 2
  let high := 4 * m + 2
  let closed := m % 2 == 0
  let atLow := Decimal.compareScaled d.digits d.exponent low (x.exponent - 2)
  let atHigh := Decimal.compareScaled d.digits d.exponent high (x.exponent - 2)
  (atLow == .gt || (closed && atLow == .eq)) && (atHigh == .lt || (closed && atHigh == .eq))

/-- The exponent `k` with `10^k ≤ x < 10^(k+1)` for a finite positive `x`,
estimated from the binary length and corrected by exact comparison. -/
def decimalExponent (x : Double) : Int :=
  let m := x.significand
  let estimate : Int := (((m.log2 : Int) + x.exponent) * 30103).fdiv 100000
  let up (k : Int) : Int :=
    if Decimal.compareScaled 1 (k + 1) m x.exponent == .gt then k else k + 1
  let down (k : Int) : Int :=
    if Decimal.compareScaled 1 k m x.exponent == .gt then k - 1 else k
  up (up (down (down estimate)))

/-- The two neighbours of `x` on the grid of multiples of `10^p`. -/
def neighbours (x : Double) (p : Int) : Decimal × Decimal :=
  let num := x.significand * Nat.pow 2 x.exponent.toNat * Nat.pow 10 (-p).toNat
  let den := Nat.pow 2 (-x.exponent).toNat * Nat.pow 10 p.toNat
  let floor := num / den
  (⟨floor, p⟩, ⟨floor + 1, p⟩)

/-- Of two neighbours on one grid the one nearer to `x`, on a tie the even one. -/
def nearer (x : Double) (below above : Decimal) : Decimal :=
  match Decimal.compareScaled (below.digits + above.digits) below.exponent
      (2 * x.significand) x.exponent with
  | .gt => below
  | .lt => above
  | .eq => if below.digits % 2 = 0 then below else above

/-- The decimal on the grid of `n` digits that reads back to `x`, if there is one. -/
def onGrid? (x : Double) (k : Int) (n : Nat) : Option Decimal :=
  let (below, above) := x.neighbours (k - n + 1)
  match x.readsBack below, x.readsBack above with
  | true, true => some (x.nearer below above)
  | true, false => some below
  | false, true => some above
  | false, false => none

/-- The shortest decimal that reads back to a finite number other than zero,
without trailing zeros. Seventeen digits always suffice. -/
def shortest? (x : Double) : Option Decimal :=
  let k := x.decimalExponent
  ((List.range 17).findSome? fun n => x.onGrid? k (n + 1)).map (Decimal.strip 20)

end Double

end ManifestRules
