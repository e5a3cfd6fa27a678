import LowThrust.Binary64.Basic
import LowThrust.Decimal.Basic
import LowThrust.Decimal.Rounding

/-!
Binary64 numbers as decimals. All rounding is done in exact arithmetic on the value
`numerator / denominator`.
-/

namespace LowThrust.Binary64

open Decimal (roundHalfEven digitCount tenTo)

namespace Finite

/-- The power of ten of the leading digit. -/
def decimalExponent (v : Finite) : Int :=
  let e : Int := digitCount v.numerator - digitCount v.denominator
  if v.denominator * tenTo e.toNat ≤ v.numerator * tenTo (-e).toNat then e else e - 1

/-- The magnitude in units of `10 ^ k`, rounded. -/
def units (v : Finite) (k : Int) : Nat :=
  roundHalfEven (v.numerator * tenTo (-k).toNat) (v.denominator * tenTo k.toNat)

/-- Whether `c · 10 ^ k` lies among the reals that round to the magnitude: those up to half a unit
of the significand away, a quarter below a power of two, and the ends themselves when the
significand is even. -/
def readsBack (v : Finite) (c : Nat) (k : Int) : Bool :=
  let unit := 1 <<< v.exponent.toNat
  let gap := if v.significand = hiddenBit ∧ -1074 < v.exponent then unit else 2 * unit
  let low := (4 * v.numerator - gap) * tenTo (-k).toNat
  let high := (4 * v.numerator + 2 * unit) * tenTo (-k).toNat
  let candidate := 4 * v.denominator * (c * tenTo k.toNat)
  if v.significand % 2 = 0 then low ≤ candidate ∧ candidate ≤ high
  else low < candidate ∧ candidate < high

/-- The number of units of `10 ^ k` that reads back as the magnitude, the nearer of two. -/
def readingBack? (v : Finite) (k : Int) : Option Nat :=
  let nearest := v.units k
  let low := v.numerator * tenTo (-k).toNat / (v.denominator * tenTo k.toNat)
  let other := if nearest = low then low + 1 else low
  if v.readsBack nearest k then some nearest
  else if v.readsBack other k then some other
  else none

/-- The first grid, from one digit to seventeen, with a number that reads back. -/
def shortest (v : Finite) : Decimal :=
  if v.significand = 0 then .finite v.negative 0 0
  else
    let e := v.decimalExponent
    let found := (List.range 17).findSome? fun (i : Nat) =>
      (v.readingBack? (e - i)).map fun c => Decimal.finite v.negative c (e - i)
    (found.getD (.finite v.negative (v.units (e - 16)) (e - 16))).normalize

def significant (digits : Nat) (v : Finite) : Decimal :=
  if v.significand = 0 then .finite v.negative 0 0
  else
    let k := v.decimalExponent - (digits - 1)
    (Decimal.finite v.negative (v.units k) k).normalize

def places (n : Nat) (v : Finite) : Decimal :=
  .finite v.negative (v.units (-n)) (-n)

end Finite

def Datum.toDecimal (f : Finite → Decimal) : Datum → Decimal
  | .nan => .nan
  | .infinite negative => .infinite negative
  | .finite v => f v

def infinity : Float := 1.0 / 0.0

/-- The nearest number to `digits · 10 ^ exponent`. Far outside the range of finite numbers the
power is not formed. -/
def ofMagnitude (digits : Nat) (exponent : Int) : Float :=
  let top := digitCount digits + exponent
  if digits = 0 ∨ top < -330 then 0.0
  else if 310 < top then infinity
  else Float.ofScientific digits (decide (exponent < 0)) exponent.natAbs

def ofDecimal : Decimal → Float
  | .nan => 0.0 / 0.0
  | .infinite negative => if negative then -infinity else infinity
  | .finite negative digits exponent =>
    if negative then -ofMagnitude digits exponent else ofMagnitude digits exponent

instance : DecimalText Float where
  shortest x := (decode x).toDecimal Finite.shortest
  significant n x := (decode x).toDecimal (Finite.significant n)
  places n x := (decode x).toDecimal (Finite.places n)
  ofDecimal := ofDecimal
  ofInt? n :=
    let x := Float.ofInt n
    if x.isFinite then some x else none

end LowThrust.Binary64
