import LowThrust.Decimal.Binary64
import LowThrust.Proofs.Binary64.Rounding
import LowThrust.Proofs.Decimal.Digits

/-!
Reading decimals: the number that a decimal is read as is the one to whose value it rounds.
-/

namespace LowThrust.Binary64

open Decimal (digitCount tenTo)
open Float.Model (Format UnpackedFloat totalExponent)
open Float.Model.UnpackedFloat

/-! ### Exact operands -/

namespace Finite

def magnitude (v : Finite) : ℚ := v.significand * 2 ^ v.exponent

theorem magnitude_eq (v : Finite) : v.magnitude = v.numerator / v.denominator := by
  rw [magnitude, numerator, denominator, Nat.shiftLeft_eq, Nat.shiftLeft_eq]
  have parts : v.exponent = (v.exponent.toNat : Int) - ((-v.exponent).toNat : Int) := by omega
  have power : (2 : ℚ) ^ v.exponent = 2 ^ v.exponent.toNat / 2 ^ (-v.exponent).toNat := by
    conv_lhs => rw [parts]
    rw [zpow_sub₀ two_ne_zero, zpow_natCast, zpow_natCast]
  rw [power]
  push_cast
  ring

end Finite

theorem roundsTo_magnitude (v : Finite) : RoundsTo v.magnitude v := by
  have value : v.magnitude / 2 ^ v.exponent = v.significand :=
    mul_div_cancel_right₀ _ (zpow_pos two_pos _).ne'
  constructor
  · rw [value]
    constructor
    · norm_num
    · norm_num
  · intro _ _
    rw [value]
    norm_num

/-- Integers of no more bits than a significand has are numbers. -/
theorem exists_decode_toUInt64 {n : Nat} (pos : 0 < n) (lt : n < 2 ^ 53) :
    ∃ w, decode n.toUInt64.toFloat = .finite w ∧ w.negative = false ∧ 2 ^ 52 ≤ w.significand ∧
      w.magnitude = n := by
  have log : n.log2 < 53 := (Nat.log2_lt pos.ne').mpr lt
  obtain ⟨k, hk⟩ : ∃ k, k + n.log2 = 52 := ⟨52 - n.log2, by omega⟩
  let w : Finite := ⟨false, n <<< k, -k⟩
  have full : 2 ^ 52 ≤ w.significand := by
    change 2 ^ 52 ≤ n <<< k
    rw [Nat.shiftLeft_eq, ← hk, pow_add, mul_comm]
    exact Nat.mul_le_mul_right _ (Nat.log2_self_le pos.ne')
  have canonical : w.Canonical := by
    refine ⟨?_, by simp only [w]; omega, by simp only [w]; omega, Or.inl full⟩
    change n <<< k < 2 ^ 53
    have : n < 2 ^ (n.log2 + 1) := Nat.lt_log2_self
    rw [Nat.shiftLeft_eq, show 53 = (n.log2 + 1) + k by omega, pow_add]
    exact Nat.mul_lt_mul_of_pos_right this (Nat.two_pow_pos k)
  have positive : 0 < w.significand := lt_of_lt_of_le (by norm_num) full
  have value : w.magnitude = n := by
    simp only [Finite.magnitude, w, Nat.shiftLeft_eq, zpow_neg, zpow_natCast]
    push_cast
    field_simp
  have exact : Describes (.ofMantissaAndAccuracy w.significand .exact)
      (w.magnitude / 2 ^ w.exponent) := by
    rw [Finite.magnitude, mul_div_cancel_right₀ _ (zpow_pos two_pos _).ne']
    exact describes_exact _
  have rounded : UnpackedFloat.ofNat .binary64 n = w.unpacked positive := by
    have order : compare (n : Int) 0 = .gt := compare_gt_iff_gt.mpr (by exact_mod_cast pos)
    have target : Format.binary64.targetExponent (totalExponent n 0) = -k := by
      rw [targetExponent_eq, totalExponent]
      omega
    rw [UnpackedFloat.ofNat, ofInt, UnpackedFloat.normalize, order]
    simp only [UnpackedFloat.round, Int.toNat_natCast, target, decreaseExponent, zero_sub,
      neg_neg]
    exact roundWithAccuracy_eq canonical positive (roundsTo_magnitude w) exact (Or.inr full)
  have bits : n.toUInt64.toNat = n := UInt64.toNat_ofNat_of_lt (lt.trans (by decide))
  refine ⟨w, ?_, rfl, full, value⟩
  change decode (.ofModel (.pack (UnpackedFloat.ofNat .binary64 n.toUInt64.toNat))) = _
  rw [bits, rounded]
  exact Finite.decode_toFloat canonical positive

def Datum.isTenTo (k : Nat) : Datum → Bool
  | .finite w => !w.negative && w.numerator == tenTo k * w.denominator
  | _ => false

theorem isTenTo_powers : ∀ k < 23,
    (Float.exactlyRepresentablePowersOfTen[k]?).all fun x => (decode x).isTenTo k := by
  decide

theorem exists_decode_power {k : Nat} (h : k < 23) {x : Float}
    (hx : Float.exactlyRepresentablePowersOfTen[k]? = some x) :
    ∃ w, decode x = .finite w ∧ w.negative = false ∧ w.magnitude = 10 ^ k := by
  have tenTo := isTenTo_powers k h
  rw [hx, Option.all_some] at tenTo
  cases hd : decode x with
  | finite w =>
    simp only [hd, Datum.isTenTo, Bool.and_eq_true, Bool.not_eq_true', beq_iff_eq] at tenTo
    refine ⟨w, rfl, tenTo.1, ?_⟩
    have pos : (w.denominator : ℚ) ≠ 0 := by exact_mod_cast w.denominator_pos.ne'
    rw [Finite.magnitude_eq, tenTo.2, div_eq_iff pos, Decimal.tenTo_eq]
    push_cast
    rfl
  | nan => rw [hd] at tenTo; cases tenTo
  | infinite => rw [hd] at tenTo; cases tenTo

theorem Finite.significand_pos_of_magnitude_pos {v : Finite} (h : 0 < v.magnitude) :
    0 < v.significand := by
  rw [Nat.pos_iff_ne_zero]
  intro zero
  rw [magnitude, zero, Nat.cast_zero, zero_mul] at h
  exact lt_irrefl _ h

/-! ### Decimals -/

theorem zpow_of_neg {k : Int} (h : k < 0) : (10 : ℚ) ^ k = ((10 : ℚ) ^ k.natAbs)⁻¹ := by
  rw [← zpow_natCast, ← zpow_neg]
  congr 1
  omega

theorem zpow_of_nonneg {k : Int} (h : 0 ≤ k) : (10 : ℚ) ^ k = (10 : ℚ) ^ k.natAbs := by
  rw [← zpow_natCast]
  congr 1
  omega

section Scientific

variable {v : Finite} {n : Nat} {k : Int}

/-- Among the exact powers of ten a single operation on numbers is enough. -/
theorem ofScientific_small (hv : v.Canonical) (h : 0 < v.significand) (pos : v.negative = false)
    (hx : RoundsTo (n * 10 ^ k) v) (hn : 0 < n) (small : n < 2 ^ 53 ∧ k.natAbs ≤ 22) :
    Float.ofScientific n (decide (k < 0)) k.natAbs = v.toFloat h := by
  obtain ⟨a, ha, apos, afull, avalue⟩ := exists_decode_toUInt64 hn small.1
  obtain ⟨b, hb, bpos, bvalue⟩ :=
    exists_decode_power (by omega : k.natAbs < 23) (Array.getElem?_eq_getElem (by
      simp only [Float.exactlyRepresentablePowersOfTen, List.size_toArray, List.length_cons,
        List.length_nil]
      omega))
  have hA : 0 < a.significand := lt_of_lt_of_le (by norm_num) afull
  have hB : 0 < b.significand := by
    apply Finite.significand_pos_of_magnitude_pos
    rw [bvalue]
    positivity
  rw [Float.ofScientific, dif_pos small]
  by_cases neg : k < 0
  · rw [zpow_of_neg neg, ← div_eq_mul_inv, ← avalue, ← bvalue] at hx
    simp only [neg, decide_true, if_true]
    change Float.ofModel (.pack (div .binary64 _ _)) = _
    rw [unpack_of_decode ha hA, unpack_of_decode hb hB]
    have quotient := div_eq hv h hA hB (signOf a.negative) (signOf b.negative)
      (by rw [apos, bpos, pos]; rfl) hx
    rw [Finite.unpacked, Finite.unpacked, quotient]
    rfl
  · rw [zpow_of_nonneg (by omega), ← avalue, ← bvalue] at hx
    simp only [neg, decide_false, Bool.false_eq_true, if_false]
    change Float.ofModel (.pack (mul .binary64 _ _)) = _
    rw [unpack_of_decode ha hA, unpack_of_decode hb hB]
    have product := mul_eq hv h hA hB (signOf a.negative) (signOf b.negative)
      (by rw [apos, bpos, pos]; rfl) hx (Or.inr (afull.trans (Nat.le_mul_of_pos_right _ hB)))
    rw [Finite.unpacked, Finite.unpacked, product]
    rfl

/-- Beyond them the operation is on the integers themselves. -/
theorem ofScientific_large (hv : v.Canonical) (h : 0 < v.significand) (pos : v.negative = false)
    (hx : RoundsTo (n * 10 ^ k) v) (hn : 0 < n) (large : ¬ (n < 2 ^ 53 ∧ k.natAbs ≤ 22))
    (le : k ≤ 2 ^ 11) (ge : -(2 ^ 11 + n.log2) ≤ k) :
    Float.ofScientific n (decide (k < 0)) k.natAbs = v.toFloat h := by
  have exponent : (if decide (k < 0) = true then Int.negOfNat k.natAbs else Int.ofNat k.natAbs) =
      k := by
    rw [Int.negOfNat_eq]
    exact Decimal.signed_natAbs k
  have within : ¬ k > 2 ^ Format.binary64.exponentBits ∧
      ¬ k < -((2 ^ Format.binary64.exponentBits : Int) + n.log2) := by
    change ¬ k > 2 ^ 11 ∧ ¬ k < -(2 ^ 11 + n.log2)
    omega
  have power : ∀ m : Nat, 0 < 10 ^ m := fun m => Nat.pow_pos (by decide)
  have read : UnpackedFloat.ofScientific .binary64 n k = v.unpacked h := by
    rw [UnpackedFloat.ofScientific, dif_neg hn.ne', if_neg within.1, if_neg within.2]
    split
    · next nonneg =>
      have value : ((n <<< 53 : Nat) * 2 ^ (-53 : Int) * ((10 ^ k.toNat : Nat) * 2 ^ (0 : Int)) : ℚ) =
          n * 10 ^ k := by
        rw [Nat.shiftLeft_eq, zpow_of_nonneg nonneg, show k.toNat = k.natAbs by omega]
        push_cast
        rw [zpow_neg]
        norm_num
        ring
      have enough : 2 ^ 52 ≤ n <<< 53 * 10 ^ k.toNat := by
        calc
          2 ^ 52 ≤ 1 * 2 ^ 53 * 1 := by norm_num
          _ ≤ n * 2 ^ 53 * 10 ^ k.toNat :=
            Nat.mul_le_mul (Nat.mul_le_mul_right _ hn) (power _)
          _ = n <<< 53 * 10 ^ k.toNat := by rw [Nat.shiftLeft_eq]
      rw [← value] at hx
      exact mul_eq hv h (Nat.shiftLeft_pos_iff.mpr hn) (power _) .positive .positive
        (by rw [pos]; rfl) hx (Or.inr enough)
    · next neg =>
      have value : ((n : ℚ) * 2 ^ (0 : Int)) / ((10 ^ (-k).toNat : Nat) * 2 ^ (0 : Int)) =
          n * 10 ^ k := by
        rw [zpow_of_neg (by omega), show (-k).toNat = k.natAbs by omega, div_eq_mul_inv]
        push_cast
        rw [mul_one, mul_one]
      rw [← value] at hx
      exact div_eq hv h hn (power _) .positive .positive (by rw [pos]; rfl) hx
  rw [Float.ofScientific, dif_neg large]
  simp only [exponent]
  change Float.ofModel (.pack (UnpackedFloat.ofScientific .binary64 n k)) = _
  rw [read]
  rfl

/-! The number of digits places a decimal between two powers of ten. -/

theorem lt_tenTo_digitCount (n : Nat) : n < 10 ^ digitCount n :=
  (Nat.length_toDigits_le_iff (by decide) Nat.length_toDigits_pos).mp le_rfl

theorem tenTo_digitCount_le (hn : 0 < n) : 10 ^ (digitCount n - 1) ≤ n := by
  by_contra below
  have pos : 0 < digitCount n := Nat.length_toDigits_pos
  by_cases single : digitCount n - 1 = 0
  · rw [single] at below
    omega
  · have := (Nat.length_toDigits_le_iff (by decide) (by omega)).mpr (not_le.mp below)
    change digitCount n ≤ digitCount n - 1 at this
    omega

theorem digitCount_le_log2 (hn : 0 < n) : digitCount n ≤ n.log2 + 1 := by
  have bound : 2 ^ (digitCount n - 1) < 2 ^ (n.log2 + 1) := by
    calc
      2 ^ (digitCount n - 1) ≤ 10 ^ (digitCount n - 1) := Nat.pow_le_pow_left (by decide) _
      _ ≤ n := tenTo_digitCount_le hn
      _ < 2 ^ (n.log2 + 1) := Nat.lt_log2_self
  have := (Nat.pow_lt_pow_iff_right (by decide)).mp bound
  omega

theorem zpow_digitCount_le (hn : 0 < n) (k : Int) :
    (10 : ℚ) ^ (digitCount n + k - 1) ≤ n * 10 ^ k := by
  have pos : 0 < digitCount n := Nat.length_toDigits_pos
  have bound : ((10 ^ (digitCount n - 1) : Nat) : ℚ) ≤ n := by
    exact_mod_cast tenTo_digitCount_le hn
  calc
    (10 : ℚ) ^ (digitCount n + k - 1) = (10 ^ (digitCount n - 1) : Nat) * 10 ^ k := by
      push_cast
      rw [← zpow_natCast, ← zpow_add₀ (by norm_num)]
      congr 1
      omega
    _ ≤ n * 10 ^ k := mul_le_mul_of_nonneg_right bound (by positivity)

theorem lt_zpow_digitCount (n : Nat) (k : Int) :
    (n : ℚ) * 10 ^ k < 10 ^ (digitCount n + k) := by
  have bound : (n : ℚ) < (10 ^ digitCount n : Nat) := by exact_mod_cast lt_tenTo_digitCount n
  calc
    (n : ℚ) * 10 ^ k < (10 ^ digitCount n : Nat) * 10 ^ k :=
      mul_lt_mul_of_pos_right bound (by positivity)
    _ = 10 ^ (digitCount n + k) := by
      push_cast
      rw [← zpow_natCast, ← zpow_add₀ (by norm_num)]

theorem least_ge : (10 : ℚ) ^ (-324 : Int) ≤ 1 / 2 * 2 ^ (-1074 : Int) := by
  have bound : ((2 * 2 ^ 1074 : Nat) : ℚ) ≤ (10 ^ 324 : Nat) := by
    exact_mod_cast (by decide +kernel : 2 * 2 ^ 1074 ≤ 10 ^ 324)
  simp only [Nat.cast_mul, Nat.cast_pow, Nat.cast_ofNat] at bound
  rw [zpow_neg, zpow_neg, one_div, ← mul_inv]
  exact inv_anti₀ (by positivity) bound

theorem greatest_le : (2 : ℚ) ^ 53 * 2 ^ (971 : Int) ≤ 10 ^ (309 : Int) := by
  have bound : ((2 ^ 53 * 2 ^ 971 : Nat) : ℚ) ≤ (10 ^ 309 : Nat) := by
    exact_mod_cast (by decide +kernel : 2 ^ 53 * 2 ^ 971 ≤ 10 ^ 309)
  simp only [Nat.cast_mul, Nat.cast_pow, Nat.cast_ofNat] at bound
  exact bound

/-- What rounds to a finite number is not far outside the range of numbers. -/
theorem RoundsTo.range {x : ℚ} (hx : RoundsTo x v) (hv : v.Canonical) (h : 0 < v.significand) :
    (10 : ℚ) ^ (-324 : Int) ≤ x ∧ x ≤ 10 ^ (309 : Int) := by
  have exponent : (2 : ℚ) ^ (-1074 : Int) ≤ 2 ^ v.exponent :=
    zpow_le_zpow_right₀ one_le_two hv.least
  have exponent' : (2 : ℚ) ^ v.exponent ≤ 2 ^ (971 : Int) :=
    zpow_le_zpow_right₀ one_le_two hv.greatest
  have one : (1 : ℚ) ≤ v.significand := by exact_mod_cast h
  have top : (v.significand : ℚ) + 1 / 2 ≤ 2 ^ 53 := by
    have : ((v.significand + 1 : Nat) : ℚ) ≤ (2 ^ 53 : Nat) := by exact_mod_cast hv.lt
    push_cast at this
    linarith
  constructor
  · calc
      (10 : ℚ) ^ (-324 : Int) ≤ 1 / 2 * 2 ^ (-1074 : Int) := least_ge
      _ ≤ (v.significand - 1 / 2) * 2 ^ v.exponent :=
        mul_le_mul (by linarith) exponent (by positivity) (by linarith)
      _ ≤ x := hx.le
  · calc
      x ≤ (v.significand + 1 / 2) * 2 ^ v.exponent := hx.ge
      _ ≤ 2 ^ 53 * 2 ^ (971 : Int) := mul_le_mul top exponent' (by positivity) (by norm_num)
      _ ≤ 10 ^ (309 : Int) := greatest_le

theorem ofMagnitude_eq (hv : v.Canonical) (h : 0 < v.significand) (pos : v.negative = false)
    (hx : RoundsTo (n * 10 ^ k) v) (hn : 0 < n) : ofMagnitude n k = v.toFloat h := by
  obtain ⟨least, greatest⟩ := hx.range hv h
  have ten : (1 : ℚ) < 10 := by norm_num
  have above : -324 < digitCount n + k :=
    (zpow_lt_zpow_iff_right₀ ten).mp (least.trans_lt (lt_zpow_digitCount n k))
  have below : digitCount n + k - 1 ≤ 309 :=
    (zpow_le_zpow_iff_right₀ ten).mp ((zpow_digitCount_le hn k).trans greatest)
  have digits := digitCount_le_log2 hn
  have some : 0 < digitCount n := Nat.length_toDigits_pos
  rw [ofMagnitude, if_neg (by omega), if_neg (by omega)]
  by_cases small : n < 2 ^ 53 ∧ k.natAbs ≤ 22
  · exact ofScientific_small hv h pos hx hn small
  · exact ofScientific_large hv h pos hx hn small (by omega) (by omega)

end Scientific

end LowThrust.Binary64
