/-!
Decimal numbers, the numbers that are written and read as decimals, and how a decimal is laid out
as text.
-/

namespace LowThrust

/-- The number `± digits · 10 ^ exponent`, or a value that has no digits. -/
inductive Decimal where
  | nan
  | infinite (negative : Bool)
  | finite (negative : Bool) (digits : Nat) (exponent : Int)
  deriving DecidableEq, Repr

/-- Numbers that are written and read as decimals. -/
class DecimalText (α : Type) where
  /-- The decimal with the fewest digits that reads back as the number. -/
  shortest : α → Decimal
  /-- The nearest decimal with so many significant digits. -/
  significant : Nat → α → Decimal
  /-- The nearest decimal with so many digits after the point, in units of the last one. -/
  places : Nat → α → Decimal
  ofDecimal : Decimal → α
  /-- Integers beyond the greatest finite number have no counterpart. -/
  ofInt? : Int → Option α

namespace Decimal

/-- Powers of ten. -/
def tenTo (k : Nat) : Nat := Nat.pow 10 k

def digitCount (n : Nat) : Nat := (Nat.toDigits 10 n).length

/-- The same number without zeros at the end of its digits. -/
def dropZeros (digits : Nat) (exponent : Int) : Nat × Int :=
  if digits = 0 then (0, 0)
  else if digits % 10 = 0 then dropZeros (digits / 10) (exponent + 1)
  else (digits, exponent)
termination_by digits

/-- Only zeros are dropped, and the exponent grows by their number. -/
theorem dropZeros_value (digits : Nat) (exponent : Int) (h : digits ≠ 0) :
    exponent ≤ (dropZeros digits exponent).2 ∧
      (dropZeros digits exponent).1 * tenTo ((dropZeros digits exponent).2 - exponent).toNat =
        digits := by
  fun_induction dropZeros digits exponent with
  | case1 => contradiction
  | case2 digits exponent _ hz ih =>
    obtain ⟨hle, heq⟩ := ih (by omega)
    refine ⟨by omega, ?_⟩
    generalize dropZeros (digits / 10) (exponent + 1) = r at *
    have : (r.2 - exponent).toNat = (r.2 - (exponent + 1)).toNat + 1 := by omega
    rw [this, show ∀ k, tenTo (k + 1) = tenTo k * 10 from fun _ => rfl, ← Nat.mul_assoc, heq]
    omega
  | case3 => simp [tenTo]

def normalize : Decimal → Decimal
  | .finite negative digits exponent =>
    let (digits, exponent) := dropZeros digits exponent
    .finite negative digits exponent
  | d => d

/-- How decimals are written: positional from 10⁻⁴ up to a bound, beyond it with an exponent of at
least two digits. -/
structure Layout where
  /-- The first power of ten that is written with an exponent. -/
  positionalBelow : Int
  /-- Whole numbers in positional notation end in `.0`. -/
  pointZero : Bool
  nan : String
  infinity : String

namespace Layout

/-- Every digit that is needed to read the number back. -/
def exact : Layout := ⟨16, true, "nan", "inf"⟩

/-- A given number of significant digits, without zeros at the end. -/
def general (digits : Nat) : Layout := ⟨digits, false, "nan", "inf"⟩

end Layout

def signChars (negative : Bool) : List Char := if negative then ['-'] else []

/-- The digits with the point after the first `point` of them. -/
def positional (pointZero : Bool) (digits : List Char) (point : Int) : List Char :=
  if point ≤ 0 then
    '0' :: '.' :: List.replicate (-point).toNat '0' ++ digits
  else if digits.length ≤ point then
    digits ++ List.replicate (point.toNat - digits.length) '0' ++
      if pointZero then ['.', '0'] else []
  else
    digits.take point.toNat ++ '.' :: digits.drop point.toNat

def exponentChars (exponent : Int) : List Char :=
  let digits := Nat.toDigits 10 exponent.natAbs
  (if exponent < 0 then '-' else '+') ::
    (if digits.length < 2 then '0' :: digits else digits)

/-- The digits with the point after the first one, and an exponent. -/
def scientific (digits : List Char) (exponent : Int) : List Char :=
  digits.take 1 ++ (if digits.length ≤ 1 then [] else '.' :: digits.drop 1) ++
    'e' :: exponentChars exponent

def magnitudeChars (l : Layout) (digits : Nat) (exponent : Int) : List Char :=
  let ds := Nat.toDigits 10 digits
  let point := ds.length + exponent
  if -4 < point ∧ point ≤ l.positionalBelow then positional l.pointZero ds point
  else scientific ds (point - 1)

def chars (l : Layout) : Decimal → List Char
  | .nan => l.nan.toList
  | .infinite negative => signChars negative ++ l.infinity.toList
  | .finite negative digits exponent => signChars negative ++ magnitudeChars l digits exponent

/-- A number of `places` digits after the point, given in units of the last one. -/
def fixedChars (places : Nat) : Decimal → List Char
  | .finite negative units _ =>
    let unit := tenTo places
    let fraction := Nat.toDigits 10 (units % unit)
    signChars negative ++ Nat.toDigits 10 (units / unit) ++
      '.' :: List.replicate (places - fraction.length) '0' ++ fraction
  | d => d.chars (.general places)

end Decimal

variable {α : Type} [DecimalText α]

/-- The shortest text that reads back as `x`. -/
def exactText (x : α) : String :=
  String.ofList ((DecimalText.shortest x).chars .exact)

/-- `x` to so many significant digits. -/
def generalText (digits : Nat) (x : α) : String :=
  String.ofList ((DecimalText.significant digits x).chars (.general digits))

/-- `x` to so many places after the point, of which there is at least one. -/
def fixedText (places : Nat) (x : α) : String :=
  String.ofList ((DecimalText.places places x).fixedChars places)

end LowThrust
