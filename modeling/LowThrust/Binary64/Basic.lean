/-!
The exact value of a binary64 number: not a number, infinite, or `± significand · 2 ^ exponent`.
-/

namespace LowThrust.Binary64

/-- The finite number `± significand · 2 ^ exponent`. -/
structure Finite where
  negative : Bool
  significand : Nat
  exponent : Int
  deriving DecidableEq, Repr

inductive Datum where
  | nan
  | infinite (negative : Bool)
  | finite (value : Finite)
  deriving DecidableEq, Repr

/-- The bit in front of the fraction, which is not stored. -/
def hiddenBit : Nat := 1 <<< 52

/-- Eleven bits of exponent and fifty-two of fraction. A number with the least exponent has no
hidden bit. -/
def decode (x : Float) : Datum :=
  let bits := x.toBits.toNat
  let negative := decide (1 <<< 63 ≤ bits)
  let exponent : Nat := (bits >>> 52) % 2048
  let fraction := bits % hiddenBit
  if exponent = 2047 then
    if fraction = 0 then .infinite negative else .nan
  else if exponent = 0 then
    .finite ⟨negative, fraction, -1074⟩
  else
    .finite ⟨negative, hiddenBit + fraction, (exponent : Int) - 1075⟩

namespace Finite

/-- The magnitude is `numerator / denominator`. -/
def numerator (v : Finite) : Nat := v.significand <<< v.exponent.toNat

def denominator (v : Finite) : Nat := 1 <<< (-v.exponent).toNat

theorem denominator_pos (v : Finite) : 0 < v.denominator := by
  rw [denominator, Nat.shiftLeft_eq, Nat.one_mul]
  exact Nat.two_pow_pos _

def signed (v : Finite) (n : Nat) : Int := if v.negative then -n else n

/-- The least integer that is not below the value. -/
def ceil (v : Finite) : Int :=
  if v.negative then -(v.numerator / v.denominator : Nat)
  else ((v.numerator + v.denominator - 1) / v.denominator : Nat)

end Finite

/-- The ceiling of a finite number; other numbers have none and give zero. -/
def ceil (x : Float) : Int :=
  match decode x with
  | .finite v => v.ceil
  | _ => 0

end LowThrust.Binary64
