import LowThrust.Proofs.Binary64.Nearest

/-!
Arithmetic on numbers that are not below zero: sums, differences, products and quotients are what
the exact results round to.
-/

namespace LowThrust.Binary64

open Float.Model (Format UnpackedFloat totalExponent)
open Float.Model.UnpackedFloat

/-! ### Rounding in and out of range -/

theorem pack_of_large_exponent {m : Nat} {e : Int} (h : 972 ≤ e) (pos : 0 < m) :
    Float.ofModel (.pack (.finite .positive m e pos)) = infinity := by
  apply eq_of_toBits_eq
  change (UnpackedFloat.pack .binary64 (.finite .positive m e pos)).toNat = _
  have biased : 2 ^ Format.binary64.exponentBits ≤
      (e + (Format.binary64.exponentBias : Int) +
        (Format.binary64.mantissaBitsWithoutImplicit : Nat)).toNat + 1 := by
    change 2 ^ 11 ≤ (e + 1023 + 52).toNat + 1
    omega
  simp only [UnpackedFloat.pack]
  rw [if_pos biased]
  decide

/-- A significand that has all of its bits, and perhaps one more, keeps its exponent or the next. -/
theorem shiftToTargetExponent_full {n : Nat} {t : Int} (full : 2 ^ 52 ≤ n) (bits : n ≤ 2 ^ 53)
    (least : -1074 ≤ t) :
    0 < (shiftToTargetExponent .binary64 n t .exact).1.mantissa ∧
      (shiftToTargetExponent .binary64 n t .exact).2 = if n = 2 ^ 53 then t + 1 else t := by
  rw [shiftToTargetExponent]
  split
  · next carried =>
    subst carried
    have target : Format.binary64.targetExponent (totalExponent (2 ^ 53) t) = t + 1 := by
      rw [targetExponent_eq, totalExponent, Nat.log2_two_pow]
      omega
    have one : (t + 1 - t).toNat = 1 := by omega
    rw [target, shiftToExponent, one]
    exact ⟨(by decide : 0 < 2 ^ 52), rfl⟩
  · next kept =>
    have log : n.log2 = 52 := (Nat.log2_eq_iff (by omega)).mpr ⟨full, by omega⟩
    have target : Format.binary64.targetExponent (totalExponent n t) = t := by
      rw [targetExponent_eq, totalExponent, log]
      omega
    rw [target, shiftToExponent, sub_self]
    exact ⟨(by decide : 0 < 2 ^ 52).trans_le full, add_zero _⟩

/-- What is not small is rounded to a significand with all of its bits, and perhaps one more. -/
theorem exists_roundedMantissa {q : ℚ} {m : Nat} {e : Int} {accuracy : Accuracy}
    (hd : Describes (.ofMantissaAndAccuracy m accuracy) (q / 2 ^ e))
    (precise : e ≤ -1074 ∨ 2 ^ 52 ≤ m) (total : -1021 ≤ totalExponent m e) :
    ∃ n t, t = totalExponent m e - 53 ∧ Nearest (q / 2 ^ t) n ∧ 2 ^ 52 ≤ n ∧ n ≤ 2 ^ 53 ∧
      (shiftToTargetExponent .binary64 m e accuracy).1.roundedMantissa = n ∧
      (shiftToTargetExponent .binary64 m e accuracy).2 = t := by
  obtain ⟨lt, least⟩ := hd.total
  obtain ⟨t, ht⟩ : ∃ t, t = totalExponent m e - 53 := ⟨_, rfl⟩
  have log : 2 ^ 52 ≤ m → 52 ≤ m.log2 := fun full => (Nat.le_log2 (by omega)).mpr full
  have some : m ≠ 0 := by
    rintro rfl
    rw [totalExponent, Nat.log2_zero] at total
    omega
  have target : Format.binary64.targetExponent (totalExponent m e) = t := by
    rw [targetExponent_eq, ht]
    omega
  have le : e ≤ t := by
    rw [totalExponent] at total ht
    omega
  have unit : (0 : ℚ) < 2 ^ t := zpow_pos two_pos _
  have low : 2 ^ 52 ≤ q / 2 ^ t := by
    rw [le_div_iff₀ unit, two_pow_mul_zpow]
    exact (zpow_le_zpow_right₀ one_le_two (by omega)).trans (least some)
  have high : q / 2 ^ t < 2 ^ 53 := by
    rw [div_lt_iff₀ unit, two_pow_mul_zpow]
    exact lt.trans_le (zpow_le_zpow_right₀ one_le_two (by omega))
  obtain ⟨shifted, exponent⟩ := hd.shiftToExponent le
  obtain ⟨n, nearest⟩ := exists_nearest ((by norm_num : (0 : ℚ) ≤ 2 ^ 52).trans low)
  obtain ⟨near, near'⟩ := abs_le.mp nearest.near
  have full : 2 ^ 52 < n + 1 := by exact_mod_cast (by linarith : (2 ^ 52 : ℚ) < n + 1)
  have bits : n < 2 ^ 53 + 1 := by exact_mod_cast (by linarith : (n : ℚ) < 2 ^ 53 + 1)
  refine ⟨n, t, ht, nearest, Nat.le_of_lt_succ full, Nat.le_of_lt_succ bits, ?_, ?_⟩
  · rw [shiftToTargetExponent, target]
    exact shifted.roundedMantissa nearest
  · rw [shiftToTargetExponent, target]
    exact exponent

/-- From half a unit beyond the greatest number on, the significand has an exponent that is too
large, at the latest when it is carried. -/
theorem roundWithAccuracy_of_overflow {q : ℚ} {m : Nat} {e : Int} {accuracy : Accuracy}
    (hd : Describes (.ofMantissaAndAccuracy m accuracy) (q / 2 ^ e))
    (precise : e ≤ -1074 ∨ 2 ^ 52 ≤ m) (large : overflow ≤ q) :
    ∃ m' e' pos, 972 ≤ e' ∧
      roundWithAccuracy .binary64 .positive m e accuracy = .finite .positive m' e' pos := by
  have total : 1024 ≤ totalExponent m e := by
    have above : (2 : ℚ) ^ (1023 : ℤ) ≤ q := by
      refine le_trans ?_ large
      rw [overflow_eq_zpow, show (1023 : ℤ) = (52 : ℕ) + 971 from rfl, ← two_pow_mul_zpow]
      exact mul_le_mul_of_nonneg_right (by norm_num) (zpow_pos two_pos _).le
    exact (zpow_lt_zpow_iff_right₀ (one_lt_two (α := ℚ))).mp (above.trans_lt hd.total.1)
  obtain ⟨n, t, ht, nearest, full, bits, first, second⟩ :=
    exists_roundedMantissa hd precise (by omega)
  obtain ⟨pos, final⟩ := shiftToTargetExponent_full full bits (by omega : -1074 ≤ t)
  have carried : t = 971 → n = 2 ^ 53 := by
    rintro rfl
    have large : (2 ^ 53 - 1 / 2 : ℚ) ≤ q / 2 ^ (971 : ℤ) := by
      rwa [le_div_iff₀ (zpow_pos two_pos _), ← overflow_eq_zpow]
    by_contra below
    have below : ((n + 1 : ℕ) : ℚ) ≤ (2 ^ 53 : ℕ) := by exact_mod_cast (by omega : n + 1 ≤ 2 ^ 53)
    push_cast at below
    have tie := le_antisymm (abs_le.mp nearest.near).2 (by linarith)
    have even := nearest.even (by rw [tie]; norm_num)
    have last : ((n + 1 : ℕ) : ℚ) = (2 ^ 53 : ℕ) := by
      push_cast
      linarith
    have last : n + 1 = 2 ^ 53 := by exact_mod_cast last
    omega
  refine ⟨_, (shiftToTargetExponent .binary64 n t .exact).2, pos, ?_, ?_⟩
  · rw [final]
    split
    · omega
    · next kept => have := mt carried kept; omega
  · rw [roundWithAccuracy]
    simp only [first, second]
    rw [dif_neg pos.ne']

theorem rounds_roundWithAccuracy {q : ℚ} {m : Nat} {e : Int} {accuracy : Accuracy}
    (hd : Describes (.ofMantissaAndAccuracy m accuracy) (q / 2 ^ e))
    (precise : e ≤ -1074 ∨ 2 ^ 52 ≤ m) :
    Rounds q (.ofModel (.pack (roundWithAccuracy .binary64 .positive m e accuracy))) := by
  have nonneg : 0 ≤ q := by
    have le := (Nat.cast_nonneg _).trans hd.le
    rwa [le_div_iff₀ (zpow_pos two_pos _), zero_mul] at le
  rcases lt_or_ge q overflow with lt | large
  · obtain ⟨v, hv, positive, rounds⟩ := exists_roundsTo nonneg lt
    refine .finite lt (decode_roundWithAccuracy rounds hv positive hd precise) ?_ rounds
    rw [Finite.value, positive]
    exact v.magnitude_nonneg
  · obtain ⟨m', e', pos, exponent, eq⟩ := roundWithAccuracy_of_overflow hd precise large
    rw [eq, pack_of_large_exponent exponent]
    exact .infinity large

/-! ### Sums and differences -/

theorem shiftLeft_mul_zpow (m k : Nat) (e : Int) :
    ((m <<< k : Nat) * 2 ^ (e - k) : ℚ) = m * 2 ^ e := by
  rw [Nat.shiftLeft_eq, Nat.cast_mul, mul_assoc, Nat.cast_pow, Nat.cast_ofNat, two_pow_mul_zpow,
    add_sub_cancel]

/-- An integer number of units is shifted until its mantissa has enough bits. -/
theorem rounds_round {m : Nat} (pos : 0 < m) (e : Int) :
    Rounds (m * 2 ^ e) (.ofModel (.pack (UnpackedFloat.round .binary64 .positive m e))) := by
  obtain ⟨k, hk⟩ : ∃ k, k = (e - max (totalExponent m e - 53) (-1074)).toNat := ⟨_, rfl⟩
  have unit : (2 : ℚ) ^ (e - k) ≠ 0 := (zpow_pos two_pos _).ne'
  have described := describes_exact (m <<< k)
  rw [← mul_div_cancel_right₀ ((m <<< k : Nat) : ℚ) unit, shiftLeft_mul_zpow] at described
  rw [UnpackedFloat.round, targetExponent_eq, decreaseExponent, ← hk]
  refine rounds_roundWithAccuracy described ?_
  rw [totalExponent] at hk
  by_cases full : 52 ≤ m.log2 + k
  · right
    calc
      2 ^ 52 ≤ 2 ^ (m.log2 + k) := Nat.pow_le_pow_right two_pos full
      _ = 2 ^ m.log2 * 2 ^ k := pow_add 2 _ _
      _ ≤ m * 2 ^ k := Nat.mul_le_mul_right _ (Nat.log2_self_le pos.ne')
      _ = m <<< k := (Nat.shiftLeft_eq m k).symm
  · left
    omega

theorem rounds_zero (s : Sign) : Rounds 0 (.ofModel (.pack (.zero s))) := by
  have small : (0 : ℚ) < overflow := by
    rw [overflow_eq_zpow]
    exact mul_pos (by norm_num) (zpow_pos two_pos _)
  have decoded : ∃ negative, decode (.ofModel (.pack (.zero s))) = .finite ⟨negative, 0, -1074⟩ := by
    cases s with
    | positive => exact ⟨false, by decide⟩
    | negative => exact ⟨true, by decide⟩
  obtain ⟨negative, decoded⟩ := decoded
  refine .finite small decoded ?_ (roundsTo_zero negative)
  rw [Finite.value_of_significand_eq_zero rfl]

theorem rounds_normalize {m : Int} (nonneg : 0 ≤ m) (e : Int) :
    Rounds (m * 2 ^ e)
      (.ofModel (.pack (UnpackedFloat.normalize .binary64 m e .positive))) := by
  obtain ⟨n, rfl⟩ := Int.eq_ofNat_of_zero_le nonneg
  obtain rfl | pos := Nat.eq_zero_or_pos n
  · rw [Int.cast_natCast, Nat.cast_zero, zero_mul]
    exact rounds_zero .positive
  · have order : compare (n : Int) 0 = .gt := compare_gt_iff_gt.mpr (by exact_mod_cast pos)
    rw [UnpackedFloat.normalize, order, Int.toNat_natCast, Int.cast_natCast]
    exact rounds_round pos e

/-- What a number that is not below zero is made of. -/
theorem IsNonneg.unpacked {x : Float} (h : IsNonneg x) :
    (∃ s, x.toModel.unpack = .zero s ∧ value x = 0) ∨
      ∃ v : Finite, ∃ pos, v.Canonical ∧ v.negative = false ∧ x.toModel.unpack = v.unpacked pos ∧
        value x = v.magnitude := by
  obtain ⟨v, hv, nonneg, eq⟩ := h.exists_decode
  have canonical := canonical_of_decode hv
  obtain none | pos := Nat.eq_zero_or_pos v.significand
  · left
    obtain ⟨negative, m, e⟩ := v
    obtain rfl : m = 0 := none
    obtain rfl : e = -1074 := canonical.full.resolve_left (by simp)
    obtain rfl : x = if negative then -0.0 else 0.0 :=
      decode_injective (hv.trans (decode_zero negative).symm)
    refine ⟨signOf negative, ?_, ?_⟩
    · cases negative <;> rfl
    · rw [value_of_decode hv, Finite.value_of_significand_eq_zero rfl]
  · right
    refine ⟨v, pos, canonical, ?_, unpack_of_decode hv pos, eq⟩
    cases sign : v.negative with
    | false => rfl
    | true =>
      rw [Finite.value, if_pos sign] at nonneg
      exact absurd (Finite.magnitude_pos pos) (neg_nonneg.mp nonneg).not_gt

theorem rounds_unpacked {v : Finite} (hv : v.Canonical) (positive : v.negative = false)
    (pos : 0 < v.significand) : Rounds v.magnitude (.ofModel (.pack (v.unpacked pos))) := by
  refine .finite hv.magnitude_lt_overflow (Finite.decode_toFloat hv pos) ?_ (roundsTo_magnitude v)
  rw [Finite.value, positive]
  exact v.magnitude_nonneg

/-- The magnitude in smaller units. -/
theorem Finite.aligned (v : Finite) {t : Int} (le : t ≤ v.exponent) :
    ((v.significand <<< (v.exponent - t).toNat : Nat) * 2 ^ t : ℚ) = v.magnitude := by
  rw [Finite.magnitude, ← shiftLeft_mul_zpow v.significand (v.exponent - t).toNat v.exponent,
    Int.toNat_of_nonneg (sub_nonneg.mpr le), sub_sub_cancel]

section Operations

variable {x y : Float}

theorem rounds_add (hx : IsNonneg x) (hy : IsNonneg y) : Rounds (value x + value y) (x + y) := by
  change Rounds _ (.ofModel (.pack (add .binary64 x.toModel.unpack y.toModel.unpack)))
  obtain ⟨s, ux, vx⟩ | ⟨v, pos, cv, sv, ux, vx⟩ := hx.unpacked
  · obtain ⟨s', uy, vy⟩ | ⟨w, pos', cw, sw, uy, vy⟩ := hy.unpacked
    · rw [ux, uy, vx, vy, add_zero, add]
      split <;> exact rounds_zero _
    · rw [ux, uy, vx, vy, zero_add]
      exact rounds_unpacked cw sw pos'
  · obtain ⟨s', uy, vy⟩ | ⟨w, pos', cw, sw, uy, vy⟩ := hy.unpacked
    · rw [ux, uy, vx, vy, add_zero]
      exact rounds_unpacked cv sv pos
    · rw [ux, uy, vx, vy, ← v.aligned (min_le_left _ w.exponent),
        ← w.aligned (min_le_right v.exponent _), ← add_mul, Finite.unpacked, Finite.unpacked, sv, sw]
      exact_mod_cast rounds_normalize (add_nonneg (Int.natCast_nonneg _) (Int.natCast_nonneg _)) _

theorem rounds_sub (hx : IsNonneg x) (hy : IsNonneg y) (le : value y ≤ value x) :
    Rounds (value x - value y) (x - y) := by
  change Rounds _ (.ofModel (.pack (sub .binary64 x.toModel.unpack y.toModel.unpack)))
  obtain ⟨s, ux, vx⟩ | ⟨v, pos, cv, sv, ux, vx⟩ := hx.unpacked
  · obtain ⟨s', uy, vy⟩ | ⟨w, pos', cw, sw, uy, vy⟩ := hy.unpacked
    · rw [ux, uy, vx, vy, sub_zero, sub]
      split <;> exact rounds_zero _
    · rw [vx, vy] at le
      exact absurd (Finite.magnitude_pos pos') le.not_gt
  · obtain ⟨s', uy, vy⟩ | ⟨w, pos', cw, sw, uy, vy⟩ := hy.unpacked
    · rw [ux, uy, vx, vy, sub_zero]
      exact rounds_unpacked cv sv pos
    · rw [vx, vy, ← v.aligned (min_le_left _ w.exponent),
        ← w.aligned (min_le_right v.exponent _)] at le
      have nonneg := Int.sub_nonneg_of_le (Int.ofNat_le.mpr
        (Nat.cast_le.mp (le_of_mul_le_mul_right le (zpow_pos two_pos _))))
      have rounded := rounds_normalize nonneg (min v.exponent w.exponent)
      rw [Int.cast_sub, Int.cast_natCast, Int.cast_natCast] at rounded
      rw [ux, uy, vx, vy, ← v.aligned (min_le_left _ w.exponent),
        ← w.aligned (min_le_right v.exponent _), ← sub_mul, Finite.unpacked, Finite.unpacked, sv, sw]
      exact rounded

/-- A factor that does not have all of its bits has the least exponent. -/
theorem rounds_mul (hx : IsNonneg x) (hy : IsNonneg y) : Rounds (value x * value y) (x * y) := by
  change Rounds _ (.ofModel (.pack (mul .binary64 x.toModel.unpack y.toModel.unpack)))
  obtain ⟨s, ux, vx⟩ | ⟨v, pos, cv, sv, ux, vx⟩ := hx.unpacked
  · rw [ux, vx, zero_mul]
    obtain ⟨s', uy, -⟩ | ⟨w, pos', -, -, uy, -⟩ := hy.unpacked
    · rw [uy]
      exact rounds_zero _
    · rw [uy]
      exact rounds_zero _
  · obtain ⟨s', uy, vy⟩ | ⟨w, pos', cw, sw, uy, vy⟩ := hy.unpacked
    · rw [ux, uy, vy, mul_zero]
      exact rounds_zero _
    · have unit : (2 : ℚ) ^ (v.exponent + w.exponent) ≠ 0 := (zpow_pos two_pos _).ne'
      have product : v.magnitude * w.magnitude =
          (v.significand * w.significand : ℕ) * 2 ^ (v.exponent + w.exponent) := by
        rw [Finite.magnitude, Finite.magnitude, zpow_add₀ two_ne_zero]
        push_cast
        ring
      have described := describes_exact (v.significand * w.significand)
      rw [← mul_div_cancel_right₀ ((v.significand * w.significand : ℕ) : ℚ) unit, ← product]
        at described
      rw [ux, uy, vx, vy, Finite.unpacked, Finite.unpacked, sv, sw]
      refine rounds_roundWithAccuracy described ?_
      rcases cv.full with full | least
      · exact .inr (full.trans (Nat.le_mul_of_pos_right _ pos'))
      · rcases cw.full with full | least'
        · exact .inr (full.trans (Nat.le_mul_of_pos_left _ pos))
        · left
          omega

/-- A quotient by a finite number is finite only of one that is, too. -/
theorem isFinite_dividend (h : (x / y).isFinite = true) (hy : y.isFinite = true) :
    x.isFinite = true := by
  have finite := isFinite_of_pack (u := div .binary64 x.toModel.unpack y.toModel.unpack) h
  change x.toModel.unpack.isFinite = true
  cases hx : x.toModel.unpack with
  | notANumber => rw [hx] at finite; cases finite
  | infinity s =>
    obtain ⟨s', uy⟩ | ⟨s', m, e, pos, uy⟩ := unpack_of_isFinite hy
    · rw [hx, uy] at finite; cases finite
    · rw [hx, uy] at finite; cases finite
  | zero | finite => rfl

theorem rounds_div (hx : IsNonneg x) (hy : IsNonneg y) (pos : 0 < value y) :
    Rounds (value x / value y) (x / y) := by
  change Rounds _ (.ofModel (.pack (div .binary64 x.toModel.unpack y.toModel.unpack)))
  obtain ⟨s', uy, vy⟩ | ⟨w, pos', cw, sw, uy, vy⟩ := hy.unpacked
  · exact absurd vy pos.ne'
  · obtain ⟨s, ux, vx⟩ | ⟨v, pos, cv, sv, ux, vx⟩ := hx.unpacked
    · rw [ux, uy, vx, zero_div]
      exact rounds_zero _
    · obtain ⟨q, t, accuracy, eq, described, precise⟩ := divCore_eq pos pos' v.exponent w.exponent
      rw [ux, uy, vx, vy, Finite.unpacked, Finite.unpacked, sv, sw, div, eq]
      exact rounds_roundWithAccuracy described precise

end Operations

/-! ### Integers -/

theorem rounds_ofNat {n : Nat} (lt : n < overflow) : Rounds n (Float.ofNat n) := by
  obtain rfl | pos := Nat.eq_zero_or_pos n
  · exact_mod_cast rounds_zero .positive
  · obtain ⟨v, canonical, positive, h, rounds⟩ := exists_roundsTo_natCast pos lt
    rw [ofNat_eq canonical h positive rounds pos]
    refine .finite (by exact_mod_cast lt) (Finite.decode_toFloat canonical h) ?_ rounds
    rw [Finite.value, positive]
    exact v.magnitude_nonneg

theorem lt_overflow_of_lt {n : Nat} (h : n < 2 ^ 64) : n < overflow := by
  have bound (k : Nat) (large : 64 ≤ k) : n < (2 ^ 54 - 1) * 2 ^ k :=
    (h.trans_le (Nat.pow_le_pow_right two_pos large)).trans_le
      (Nat.le_mul_of_pos_left _ (by norm_num))
  rw [overflow_eq]
  exact bound 970 (by norm_num)

theorem isNonneg_ofNat {n : Nat} (lt : n < overflow) : IsNonneg (Float.ofNat n) := by
  have rounds := rounds_ofNat lt
  exact rounds.isNonneg (rounds.isFinite_iff.mpr (by exact_mod_cast lt))

theorem value_ofNat {n : Nat} (bits : n < 2 ^ 53) : value (Float.ofNat n) = n := by
  have lt := lt_overflow_of_lt (bits.trans (by norm_num))
  have rounds := rounds_ofNat lt
  rw [← mul_one (n : ℚ), ← zpow_zero (2 : ℚ)] at rounds
  rw [rounds.value_of_units (isNonneg_ofNat lt).finite bits (by norm_num), zpow_zero, mul_one]

theorem ceil_div (n : Nat) {d : Nat} (pos : 0 < d) :
    ⌈(n / d : ℚ)⌉ = ((n + d - 1) / d : Nat) := by
  have pos' : (0 : ℚ) < d := by exact_mod_cast pos
  have below : (n + d - 1) / d * d < n + d := by
    have := Nat.div_mul_le_self (n + d - 1) d
    omega
  have above : n + d ≤ d * ((n + d - 1) / d + 1) := by
    have := Nat.lt_mul_div_succ (n + d - 1) pos
    omega
  generalize (n + d - 1) / d = m at below above
  have below : (m * d : ℚ) < n + d := by exact_mod_cast below
  have above : (n + d : ℚ) ≤ d * (m + 1) := by exact_mod_cast above
  rw [Int.ceil_eq_iff, lt_div_iff₀ pos', div_le_iff₀ pos', Int.cast_natCast]
  constructor <;> linarith

theorem ceil_eq {x : Float} (h : IsNonneg x) : ceil x = ⌈value x⌉ := by
  obtain ⟨v, hv, nonneg, eq⟩ := h.exists_decode
  have pos : (0 : ℚ) < v.denominator := by exact_mod_cast v.denominator_pos
  rw [ceil, hv, eq, Finite.magnitude_eq]
  change v.ceil = _
  rw [Finite.ceil]
  split
  · next negative =>
    rw [Finite.value, if_pos negative, Finite.magnitude_eq, neg_nonneg, div_le_iff₀ pos, zero_mul]
      at nonneg
    have none : v.numerator = 0 := Nat.le_zero.mp (by exact_mod_cast nonneg)
    rw [none, Nat.zero_div, Nat.cast_zero, neg_zero, Nat.cast_zero, zero_div, Int.ceil_zero]
  · rw [ceil_div _ v.denominator_pos]

/-! ### Order -/

section Order

variable {x y z : Float}

/-- Numbers that are not below zero, and infinity. -/
def IsExtended (x : Float) : Prop := IsNonneg x ∨ x = infinity

theorem Rounds.isExtended {q : ℚ} (h : Rounds q x) : IsExtended x := by
  cases hx : x.isFinite with
  | true => exact .inl (h.isNonneg hx)
  | false =>
    cases h with
    | infinity => exact .inr rfl
    | finite _ decoded => cases hx.symm.trans (isFinite_iff_decode.mpr ⟨_, decoded⟩)

theorem IsNonneg.add_infinity (hx : IsNonneg x) : x + infinity = infinity := by
  change Float.ofModel (.pack (add .binary64 x.toModel.unpack infinity.toModel.unpack)) = _
  obtain ⟨s, ux, -⟩ | ⟨v, pos, -, -, ux, -⟩ := hx.unpacked
  · rw [ux]
    rfl
  · rw [ux]
    rfl

theorem IsExtended.le_infinity (hx : IsExtended x) : x ≤ infinity := by
  obtain hx | rfl := hx
  · exact float_le_of_lt (lt_infinity hx.finite)
  · decide

theorem IsExtended.add (hx : IsNonneg x) (hy : IsExtended y) : IsExtended (x + y) := by
  obtain hy | rfl := hy
  · exact (rounds_add hx hy).isExtended
  · exact .inr hx.add_infinity

theorem le_add (hx : IsNonneg x) (hy : IsExtended y) : x ≤ x + y := by
  obtain hy | rfl := hy
  · exact hx.rounds.le (rounds_add hx hy) hx.nonneg (le_add_of_nonneg_right hy.nonneg)
  · rw [hx.add_infinity]
    exact float_le_of_lt (lt_infinity hx.finite)

theorem le_add_left (hx : IsNonneg x) (hy : IsExtended y) : y ≤ x + y := by
  obtain hy | rfl := hy
  · exact hy.rounds.le (rounds_add hx hy) hy.nonneg (le_add_of_nonneg_left hx.nonneg)
  · rw [hx.add_infinity]
    decide

/-- Only finite numbers are at most a finite number. -/
theorem IsExtended.of_le (hx : IsExtended x) (hy : y.isFinite = true) (le : x ≤ y) :
    IsNonneg x := by
  obtain hx | rfl := hx
  · exact hx
  · exact absurd le (float_not_le_of_lt (lt_infinity hy))

theorem add_le_add_left (hx : IsNonneg x) (hy : IsExtended y) (hz : IsExtended z) (le : y ≤ z) :
    x + y ≤ x + z := by
  obtain hz | rfl := hz
  · have hy := hy.of_le hz.finite le
    refine (rounds_add hx hy).le (rounds_add hx hz) (add_nonneg hx.nonneg hy.nonneg) ?_
    gcongr
    exact (le_iff_value hy.finite hz.finite).mp le
  · rw [hx.add_infinity]
    exact (IsExtended.add hx hy).le_infinity

end Order

end LowThrust.Binary64
