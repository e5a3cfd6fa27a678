import Mathlib
import LowThrust.Decimal.Numeral

/-!
The digits of a number, and the one form of a decimal among those with more zeros at the end.
-/

namespace LowThrust

namespace Decimal

theorem tenTo_eq (k : Nat) : tenTo k = 10 ^ k := rfl

theorem tenTo_pos (k : Nat) : 0 < tenTo k := Nat.pow_pos (by decide)

theorem tenTo_add (j k : Nat) : tenTo (j + k) = tenTo j * tenTo k := Nat.pow_add 10 j k

theorem signed_natAbs (n : Int) :
    (if decide (n < 0) = true then -(n.natAbs : Int) else n.natAbs) = n := by
  split
  · next negative =>
    rw [decide_eq_true_eq] at negative
    omega
  · next positive =>
    rw [decide_eq_true_eq] at positive
    omega

/-! ### Values of digits -/

@[simp] theorem digitsValue_toDigits (n : Nat) : digitsValue (Nat.toDigits 10 n) = n :=
  Nat.ofDigitChars_ten_toDigits

theorem digitsValue_append (ds es : List Char) :
    digitsValue (ds ++ es) = digitsValue ds * tenTo es.length + digitsValue es := by
  change Nat.ofDigitChars 10 (ds ++ es) 0 = _
  rw [Nat.ofDigitChars_append, Nat.ofDigitChars_eq_ofDigitChars_zero, Nat.mul_comm]
  rfl

@[simp] theorem digitsValue_replicate_zero (k : Nat) : digitsValue (List.replicate k '0') = 0 :=
  Nat.ofDigitChars_replicate_zero

theorem isDigit_of_mem_toDigits {n : Nat} {c : Char} (h : c ∈ Nat.toDigits 10 n) : c.isDigit :=
  Nat.isDigit_of_mem_toDigits (by decide) (by decide) h

theorem exists_toDigits_eq_cons (n : Nat) :
    ∃ c cs, Nat.toDigits 10 n = c :: cs ∧ c.isDigit := by
  obtain ⟨c, cs, eq⟩ := List.exists_cons_of_ne_nil (Nat.toDigits_ne_nil (n := n) (b := 10))
  exact ⟨c, cs, eq, isDigit_of_mem_toDigits (n := n) (by simp [eq])⟩

/-- Only the number zero begins with a zero. -/
theorem head?_toDigits_ne {n : Nat} (h : n ≠ 0) : (Nat.toDigits 10 n).head? ≠ some '0' := by
  induction n using Nat.strongRecOn with
  | ind n ih =>
    rw [Nat.toDigits_eq_if (by decide)]
    split
    · next lt =>
      have small : ∀ d < 10, d ≠ 0 → d.digitChar ≠ '0' := by decide
      simpa using small n lt h
    · next le =>
      have first := ih (n / 10) (by omega) (by omega)
      cases hd : Nat.toDigits 10 (n / 10) with
      | nil => exact absurd hd Nat.toDigits_ne_nil
      | cons c ds => simpa [hd] using first

/-! ### Runs of digits -/

/-- What follows a run of digits does not go on with one. -/
def NoDigitHead (cs : List Char) : Prop := ∀ c ∈ cs.head?, c.isDigit = false

theorem takeWhile_isDigit_append {ds rest : List Char} (hds : ∀ c ∈ ds, c.isDigit)
    (hrest : NoDigitHead rest) : (ds ++ rest).takeWhile Char.isDigit = ds := by
  rw [List.takeWhile_append_of_pos hds]
  cases rest with
  | nil => simp
  | cons c rest => simp [hrest c rfl]

theorem dropWhile_isDigit_append {ds rest : List Char} (hds : ∀ c ∈ ds, c.isDigit)
    (hrest : NoDigitHead rest) : (ds ++ rest).dropWhile Char.isDigit = rest := by
  rw [List.dropWhile_append_of_pos hds]
  cases rest with
  | nil => rfl
  | cons c rest => simp [hrest c rfl]

/-! ### Zeros at the end -/

@[simp] theorem dropZeros_zero (exponent : Int) : dropZeros 0 exponent = (0, 0) := by
  rw [dropZeros, if_pos rfl]

theorem dropZeros_mul_tenTo (digits k : Nat) (exponent : Int) :
    dropZeros (digits * tenTo k) exponent = dropZeros digits (exponent + k) := by
  induction k generalizing exponent with
  | zero => simp [tenTo]
  | succ k ih =>
    by_cases h : digits = 0
    · subst h
      simp
    · have zero : digits * tenTo (k + 1) = digits * tenTo k * 10 := by
        rw [tenTo_add, Nat.mul_assoc]
        rfl
      have ne : digits * tenTo k ≠ 0 := Nat.mul_ne_zero h (tenTo_pos k).ne'
      rw [dropZeros, zero, if_neg (by omega), if_pos (by omega), Nat.mul_div_cancel _ (by decide),
        ih]
      congr 1
      push_cast
      ring

theorem normalize_mul_tenTo (negative : Bool) (digits k : Nat) (exponent : Int) :
    normalize (.finite negative (digits * tenTo k) exponent) =
      normalize (.finite negative digits (exponent + k)) := by
  simp only [normalize, dropZeros_mul_tenTo]

theorem dropZeros_dropZeros (digits : Nat) (exponent : Int) :
    dropZeros (dropZeros digits exponent).1 (dropZeros digits exponent).2 =
      dropZeros digits exponent := by
  fun_induction dropZeros digits exponent with
  | case1 => exact dropZeros_zero 0
  | case2 digits exponent h hz ih => exact ih
  | case3 digits exponent h hz => rw [dropZeros, if_neg h, if_neg hz]

theorem normalize_normalize (d : Decimal) : d.normalize.normalize = d.normalize := by
  cases d with
  | nan => rfl
  | infinite negative => rfl
  | finite negative digits exponent => simp only [normalize, dropZeros_dropZeros]

end Decimal

/-- Numbers that read back from the shortest decimal, which has no zeros at its end. -/
class LawfulDecimalText (α : Type) [DecimalText α] : Prop where
  normalize_shortest : ∀ x : α, (DecimalText.shortest x).normalize = DecimalText.shortest x
  ofDecimal_shortest : ∀ x : α, DecimalText.ofDecimal (DecimalText.shortest x) = x

end LowThrust
