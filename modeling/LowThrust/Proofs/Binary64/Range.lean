import LowThrust.Proofs.Binary64.Reading

/-!
The range of numbers: what is less than half a unit beyond the greatest one rounds to a number, so
an integer that is no finite number is at least as large as that.
-/

namespace LowThrust.Binary64

open Decimal (roundHalfEven roundHalfEven_near)

/-! ### Nearest integers -/

/-- A quotient in the middle between two integers is rounded to the even one. -/
theorem roundHalfEven_even (num : Nat) {den : Nat} (h : 0 < den)
    (tie : 2 * num = 2 * (den * roundHalfEven num den) + den ∨
      2 * (den * roundHalfEven num den) = 2 * num + den) : roundHalfEven num den % 2 = 0 := by
  have whole : den * (num / den) + num % den = num := Nat.div_add_mod num den
  have rest : num % den < den := Nat.mod_lt _ h
  have next : den * (num / den + 1) = den * (num / den) + den := Nat.mul_succ _ _
  unfold roundHalfEven at tie ⊢
  grind

theorem nearest_roundHalfEven (num : Nat) {den : Nat} (h : 0 < den) :
    Nearest (num / den) (roundHalfEven num den) := by
  have pos : (0 : ℚ) < den := by exact_mod_cast h
  have even := roundHalfEven_even num h
  obtain ⟨le, ge⟩ := roundHalfEven_near num h
  generalize roundHalfEven num den = r at even le ge
  have twice : (0 : ℚ) < 2 * den := by positivity
  have parts : (num / den - r : ℚ) * (2 * den) = 2 * num - 2 * (den * r) := by
    field_simp
  constructor
  · rw [← Nat.cast_le (α := ℚ)] at le ge
    push_cast at le ge
    rw [abs_le]
    constructor
    · rw [← mul_le_mul_iff_of_pos_right twice, parts]
      linarith
    · rw [← mul_le_mul_iff_of_pos_right twice, parts]
      linarith
  · intro tie
    apply even
    obtain side | side := (abs_eq (by norm_num)).mp tie
    · left
      rw [side] at parts
      exact_mod_cast (by linarith : (2 * num : ℚ) = 2 * (den * r) + den)
    · right
      rw [side] at parts
      exact_mod_cast (by linarith : (2 * (den * r) : ℚ) = 2 * num + den)

theorem num_div_den_of_nonneg {y : ℚ} (nonneg : 0 ≤ y) : (y.num.toNat / y.den : ℚ) = y := by
  rw [← Int.cast_natCast y.num.toNat, Int.toNat_of_nonneg (Rat.num_nonneg.mpr nonneg),
    Rat.num_div_den]

theorem exists_nearest {y : ℚ} (nonneg : 0 ≤ y) : ∃ n, Nearest y n := by
  rw [← num_div_den_of_nonneg nonneg]
  exact ⟨_, nearest_roundHalfEven _ y.den_pos⟩

/-! ### Numbers in range -/

/-- Half a unit beyond the greatest number. Integers from here on are too large. -/
def overflow : Nat := 2 ^ 1024 - 2 ^ 970

theorem overflow_eq : overflow = (2 ^ 54 - 1) * 2 ^ 970 := by
  rw [overflow, show 1024 = 54 + 970 from rfl, pow_add, Nat.sub_mul, one_mul]

theorem overflow_eq_zpow : (overflow : ℚ) = (2 ^ 53 - 1 / 2) * 2 ^ (971 : ℤ) := by
  have half : ((2 ^ 54 - 1 : ℕ) : ℚ) = (2 ^ 53 - 1 / 2) * 2 := by norm_num
  rw [overflow_eq, Nat.cast_mul, half, Nat.cast_pow, Nat.cast_ofNat, mul_assoc, ← pow_succ',
    ← zpow_natCast]
  rfl

theorem overflow_le_of_le_div {q : ℚ} {e : ℤ} (last : 971 ≤ e) (h : 2 ^ 53 - 1 / 2 ≤ q / 2 ^ e) :
    overflow ≤ q := by
  calc
    (overflow : ℚ) = (2 ^ 53 - 1 / 2) * 2 ^ (971 : ℤ) := overflow_eq_zpow
    _ ≤ (2 ^ 53 - 1 / 2) * 2 ^ e :=
      mul_le_mul_of_nonneg_left (zpow_le_zpow_right₀ one_le_two last) (by norm_num)
    _ ≤ q := (le_div_iff₀ (zpow_pos two_pos e)).mp h

theorem roundsTo_zero (negative : Bool) : RoundsTo 0 ⟨negative, 0, -1074⟩ := by
  constructor
  · rw [zero_div]
    exact ⟨by norm_num, fun _ => rfl⟩
  · rintro ⟨⟩

/-- The exponent of a significand that has all of its bits, if that is not too small. -/
theorem exists_exponent {q : ℚ} (pos : 0 < q) :
    ∃ e : ℤ, -1074 ≤ e ∧ q / 2 ^ e < 2 ^ 53 ∧ (e = -1074 ∨ 2 ^ 52 ≤ q / 2 ^ e) := by
  have low := Int.zpow_log_le_self one_lt_two pos
  have high := Int.lt_zpow_succ_log_self one_lt_two q
  rw [Nat.cast_ofNat] at low high
  have unit (e : ℤ) : (0 : ℚ) < 2 ^ e := zpow_pos two_pos e
  refine ⟨max (Int.log 2 q - 52) (-1074), le_max_right _ _, ?_, ?_⟩
  · rw [div_lt_iff₀ (unit _), two_pow_mul_zpow]
    refine high.trans_le (zpow_le_zpow_right₀ one_le_two ?_)
    omega
  · rcases max_choice (Int.log 2 q - 52) (-1074) with full | least
    · right
      rw [full, le_div_iff₀ (unit _), two_pow_mul_zpow]
      refine le_trans (zpow_le_zpow_right₀ one_le_two ?_) low
      omega
    · exact .inl least

/-- What is in range rounds to a number: to the nearest integer of units of its last bit, which is
carried if it has one bit more. -/
theorem exists_roundsTo {q : ℚ} (nonneg : 0 ≤ q) (lt : q < overflow) :
    ∃ v : Finite, v.Canonical ∧ v.negative = false ∧ RoundsTo q v := by
  obtain rfl | pos := nonneg.eq_or_lt
  · exact ⟨⟨false, 0, -1074⟩, ⟨by norm_num, le_rfl, by norm_num, .inr rfl⟩, rfl, roundsTo_zero _⟩
  obtain ⟨e, least, high, full⟩ := exists_exponent pos
  have unit : (0 : ℚ) < 2 ^ e := zpow_pos two_pos e
  obtain ⟨n, nearest⟩ := exists_nearest (div_nonneg nonneg unit.le)
  obtain ⟨near, near'⟩ := abs_le.mp nearest.near
  have room : e ≤ 971 := by
    by_contra above
    have full := full.resolve_left (by omega)
    have double : q / 2 ^ (e - 1) = q / 2 ^ e * 2 := by
      rw [zpow_sub_one₀ two_ne_zero, div_mul_eq_div_div, div_inv_eq_mul]
    have large : (2 : ℚ) ^ 53 - 1 / 2 ≤ q / 2 ^ (e - 1) := by
      rw [double]
      linarith
    exact lt.not_ge (overflow_le_of_le_div (by omega) large)
  by_cases carried : n = 2 ^ 53
  · rw [carried] at near
    push_cast at near
    have next : e + 1 ≤ 971 := by
      by_contra last
      exact lt.not_ge (overflow_le_of_le_div (by omega) (by linarith : 2 ^ 53 - 1 / 2 ≤ q / 2 ^ e))
    have half : q / 2 ^ (e + 1) = q / 2 ^ e / 2 := by
      rw [zpow_add_one₀ two_ne_zero, div_div]
    refine ⟨⟨false, 2 ^ 52, e + 1⟩, ⟨by norm_num, ?_, next, .inl le_rfl⟩, rfl, ?_, ?_⟩
    · exact le_add_of_le_of_nonneg least zero_le_one
    · rw [half]
      push_cast
      exact ⟨by rw [abs_le]; constructor <;> linarith, fun _ => rfl⟩
    · rintro - -
      rw [half]
      push_cast
      linarith
  · have bits : n < 2 ^ 53 := by
      have below : (n : ℚ) < (2 ^ 53 + 1 : Nat) := by
        push_cast
        linarith
      have below : n < 2 ^ 53 + 1 := by exact_mod_cast below
      omega
    refine ⟨⟨false, n, e⟩, ⟨bits, least, room, ?_⟩, rfl, nearest, ?_⟩
    · refine full.symm.imp_left fun full => ?_
      have above : ((2 ^ 52 : Nat) : ℚ) < (n + 1 : Nat) := by
        push_cast
        linarith
      have above : 2 ^ 52 < n + 1 := by exact_mod_cast above
      simp only
      omega
    · intro hidden above
      simp only at hidden above ⊢
      have full := full.resolve_left above.ne'
      rw [hidden]
      push_cast
      linarith

theorem RoundsTo.significand_pos {q : ℚ} {v : Finite} (h : RoundsTo q v) (hv : v.Canonical)
    (large : 1 ≤ q) : 0 < v.significand := by
  by_contra none
  have zero : v.significand = 0 := by omega
  have least : v.exponent = -1074 := hv.full.resolve_left (by rw [zero]; norm_num)
  have small : (2 : ℚ) ^ v.exponent ≤ 1 := by
    rw [least]
    exact zpow_le_one_of_nonpos₀ one_le_two (by norm_num)
  have ge := h.ge
  rw [zero, Nat.cast_zero, zero_add] at ge
  linarith

theorem exists_roundsTo_natCast {n : Nat} (pos : 0 < n) (lt : n < overflow) :
    ∃ v : Finite, v.Canonical ∧ v.negative = false ∧ 0 < v.significand ∧ RoundsTo n v := by
  obtain ⟨v, canonical, positive, rounds⟩ :=
    exists_roundsTo (q := n) n.cast_nonneg (by exact_mod_cast lt)
  exact ⟨v, canonical, positive, rounds.significand_pos canonical (by exact_mod_cast pos), rounds⟩

theorem ofNat_eq {v : Finite} {n : Nat} (hv : v.Canonical) (h : 0 < v.significand)
    (pos : v.negative = false) (hx : RoundsTo n v) (hn : 0 < n) :
    Float.ofNat n = v.toFloat h := by
  have scaled : RoundsTo (n * 10 ^ (0 : Int)) v := by
    rw [zpow_zero, mul_one]
    exact hx
  change Float.ofScientific n (decide ((0 : Int) < 0)) (0 : Int).natAbs = v.toFloat h
  by_cases small : n < 2 ^ 53 ∧ (0 : Int).natAbs ≤ 22
  · exact ofScientific_small hv h pos scaled hn small
  · exact ofScientific_large hv h pos scaled hn small (by norm_num) (by omega)

theorem Finite.Canonical.isFinite_toFloat {v : Finite} (hv : v.Canonical) (h : 0 < v.significand) :
    (v.toFloat h).isFinite = true := by
  change (v.toFloat h).toModel.unpack.isFinite = true
  rw [unpack_of_decode (decode_toFloat hv h) h]
  rfl

theorem isFinite_ofInt {n : Int} (lt : n.natAbs < overflow) : (Float.ofInt n).isFinite = true := by
  cases n with
  | ofNat n =>
    obtain rfl | pos := Nat.eq_zero_or_pos n
    · decide
    · obtain ⟨v, canonical, positive, h, rounds⟩ := exists_roundsTo_natCast pos lt
      change (Float.ofNat n).isFinite = true
      rw [ofNat_eq canonical h positive rounds pos]
      exact canonical.isFinite_toFloat h
  | negSucc n =>
    obtain ⟨v, canonical, positive, h, rounds⟩ := exists_roundsTo_natCast n.succ_pos lt
    have opposite : Finite.Canonical ⟨!v.negative, v.significand, v.exponent⟩ :=
      ⟨canonical.lt, canonical.least, canonical.greatest, canonical.full⟩
    change (-Float.ofNat (n + 1)).isFinite = true
    rw [ofNat_eq canonical h positive rounds n.succ_pos,
      neg_eq_toFloat (Finite.decode_toFloat canonical h) h]
    exact opposite.isFinite_toFloat h

/-- Only integers that are too large are no numbers. -/
theorem overflow_le_of_ofInt? {n : Int} (h : (DecimalText.ofInt? n : Option Float) = none) :
    overflow ≤ n.natAbs := by
  by_contra lt
  have finite := isFinite_ofInt (not_le.mp lt)
  have read : (DecimalText.ofInt? n : Option Float) = some (Float.ofInt n) := if_pos finite
  rw [read] at h
  exact Option.some_ne_none _ h

end LowThrust.Binary64
