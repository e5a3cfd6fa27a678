import LowThrust.Proofs.Binary64.NonFinite
import LowThrust.Proofs.Binary64.Range

/-!
Numbers as rationals. Finite numbers are in the order of their values, and what a rational rounds to
is as near to it as any of them.
-/

namespace LowThrust.Binary64

open Float.Model (Format UnpackedFloat totalExponent)
open Float.Model.UnpackedFloat

namespace Finite

variable {v w : Finite}

def value (v : Finite) : ℚ := if v.negative then -v.magnitude else v.magnitude

theorem magnitude_nonneg (v : Finite) : 0 ≤ v.magnitude :=
  mul_nonneg (Nat.cast_nonneg _) (zpow_pos two_pos _).le

theorem magnitude_pos (h : 0 < v.significand) : 0 < v.magnitude :=
  mul_pos (by exact_mod_cast h) (zpow_pos two_pos _)

theorem value_of_significand_eq_zero (h : v.significand = 0) : v.value = 0 := by
  rw [value, magnitude, h, Nat.cast_zero, zero_mul, neg_zero, ite_self]

theorem value_of_nonneg (h : 0 ≤ v.value) : v.value = v.magnitude := by
  have := v.magnitude_nonneg
  rw [value] at h ⊢
  split at h
  · rw [if_pos ‹_›]
    linarith
  · rw [if_neg ‹_›]

/-- With a lower exponent, even all bits of a significand are half a unit short of the least one that
has all of its bits. -/
theorem mul_zpow_le_of_lt {k : ℕ} {e e' : ℤ} (bits : k < 2 ^ 53) (lt : e < e') :
    (k * 2 ^ e : ℚ) ≤ (2 ^ 52 - 1 / 2) * 2 ^ e' := by
  have bits : ((k + 1 : ℕ) : ℚ) ≤ (2 ^ 53 : ℕ) := by exact_mod_cast bits
  have double : (2 : ℚ) ^ e * 2 ≤ 2 ^ e' := by
    rw [← zpow_add_one₀ two_ne_zero]
    exact zpow_le_zpow_right₀ one_le_two lt
  push_cast at bits
  calc
    (k * 2 ^ e : ℚ) ≤ (2 ^ 53 - 1) * 2 ^ e :=
      mul_le_mul_of_nonneg_right (by linarith) (zpow_pos two_pos _).le
    _ = (2 ^ 52 - 1 / 2) * (2 ^ e * 2) := by ring
    _ ≤ (2 ^ 52 - 1 / 2) * 2 ^ e' := mul_le_mul_of_nonneg_left double (by norm_num)

namespace Canonical

/-- A greater exponent needs all bits of the significand. -/
theorem magnitude_lt_of_exponent_lt (hv : v.Canonical) (hw : w.Canonical)
    (h : v.exponent < w.exponent) : v.magnitude < w.magnitude := by
  have full : 2 ^ 52 ≤ w.significand := hw.full.resolve_right (by have := hv.least; omega)
  have full : (2 ^ 52 : ℚ) ≤ w.significand := by exact_mod_cast full
  have unit : (0 : ℚ) < 2 ^ w.exponent := zpow_pos two_pos _
  calc
    v.magnitude ≤ (2 ^ 52 - 1 / 2) * 2 ^ w.exponent := mul_zpow_le_of_lt hv.lt h
    _ < w.significand * 2 ^ w.exponent := mul_lt_mul_of_pos_right (by linarith) unit

theorem magnitude_lt (hv : v.Canonical) (hw : w.Canonical)
    (h : v.exponent < w.exponent ∨ v.exponent = w.exponent ∧ v.significand < w.significand) :
    v.magnitude < w.magnitude := by
  obtain less | ⟨same, less⟩ := h
  · exact hv.magnitude_lt_of_exponent_lt hw less
  · rw [magnitude, magnitude, same]
    exact mul_lt_mul_of_pos_right (by exact_mod_cast less) (zpow_pos two_pos _)

theorem exponent_le (hv : v.Canonical) (hw : w.Canonical) (h : v.magnitude ≤ w.magnitude) :
    v.exponent ≤ w.exponent := by
  by_contra above
  exact h.not_gt (hw.magnitude_lt_of_exponent_lt hv (not_le.mp above))

end Canonical

end Finite

/-- The sign of a number and, above and below zero, its rank. -/
theorem rank_cases {x : Float} {v : Finite} (h : decode x = .finite v) :
    (v.value = 0 ∧ rank x = toLex (0, toLex (0, 0))) ∨
      (0 < v.value ∧ v.value = v.magnitude ∧
        rank x = toLex (1, toLex (v.exponent, (v.significand : ℤ)))) ∨
      (v.value < 0 ∧ v.value = -v.magnitude ∧
        rank x = toLex (-1, toLex (-v.exponent, -(v.significand : ℤ)))) := by
  obtain none | some := Nat.eq_zero_or_pos v.significand
  · refine .inl ⟨Finite.value_of_significand_eq_zero none, ?_⟩
    obtain ⟨negative, m, e⟩ := v
    obtain rfl : m = 0 := none
    obtain rfl : e = -1074 := (canonical_of_decode h).full.resolve_left (by simp)
    obtain rfl : x = if negative then -0.0 else 0.0 :=
      decode_injective (h.trans (decode_zero negative).symm)
    cases negative <;> rfl
  · have pos := Finite.magnitude_pos some
    right
    rw [rank, unpack_of_decode h some, Finite.unpacked, Finite.value]
    cases v.negative with
    | true => exact .inr ⟨neg_neg_of_pos pos, rfl, rfl⟩
    | false => exact .inl ⟨pos, rfl, rfl⟩

section Rank

variable {x y : Float} {v w : Finite} (hx : decode x = .finite v) (hy : decode y = .finite w)

include hx hy

/-- Below zero the order of magnitudes is reversed. -/
theorem value_lt_of_rank_lt (h : rank x < rank y) : v.value < w.value := by
  have kinds := Prod.Lex.monotone_fst _ _ h.le
  have cv := canonical_of_decode hx
  have cw := canonical_of_decode hy
  rcases rank_cases hx with ⟨zero, rx⟩ | ⟨pos, vx, rx⟩ | ⟨neg, vx, rx⟩
  · rcases rank_cases hy with ⟨-, ry⟩ | ⟨pos', -, ry⟩ | ⟨-, -, ry⟩
    · exact absurd (rx.trans ry.symm) h.ne
    · exact zero.trans_lt pos'
    · simp [rx, ry] at kinds
  · rcases rank_cases hy with ⟨-, ry⟩ | ⟨-, vy, ry⟩ | ⟨-, -, ry⟩
    · simp [rx, ry] at kinds
    · rw [vx, vy]
      exact cv.magnitude_lt cw (by simpa [rx, ry, Prod.Lex.lt_iff] using h)
    · simp [rx, ry] at kinds
  · rcases rank_cases hy with ⟨zero', -⟩ | ⟨pos', -, -⟩ | ⟨-, vy, ry⟩
    · exact neg.trans_eq zero'.symm
    · exact neg.trans pos'
    · have swapped : w.exponent < v.exponent ∨
          v.exponent = w.exponent ∧ w.significand < v.significand := by
        simpa [rx, ry, Prod.Lex.lt_iff] using h
      rw [vx, vy]
      exact neg_lt_neg
        (cw.magnitude_lt cv (swapped.imp_right fun ⟨same, less⟩ => ⟨same.symm, less⟩))

theorem value_eq_of_rank_eq (h : rank x = rank y) : v.value = w.value := by
  have magnitudes (same : v.exponent = w.exponent ∧ v.significand = w.significand) :
      v.magnitude = w.magnitude := by
    rw [Finite.magnitude, Finite.magnitude, same.1, same.2]
  rcases rank_cases hx with ⟨zero, rx⟩ | ⟨-, vx, rx⟩ | ⟨-, vx, rx⟩
  · rcases rank_cases hy with ⟨zero', -⟩ | ⟨-, -, ry⟩ | ⟨-, -, ry⟩
    · rw [zero, zero']
    · simp [rx, ry] at h
    · simp [rx, ry] at h
  · rcases rank_cases hy with ⟨-, ry⟩ | ⟨-, vy, ry⟩ | ⟨-, -, ry⟩
    · simp [rx, ry] at h
    · rw [vx, vy, magnitudes (by simpa [rx, ry] using h)]
    · simp [rx, ry] at h
  · rcases rank_cases hy with ⟨-, ry⟩ | ⟨-, -, ry⟩ | ⟨-, vy, ry⟩
    · simp [rx, ry] at h
    · simp [rx, ry] at h
    · rw [vx, vy, magnitudes (by simpa [rx, ry] using h)]

end Rank

/-! ### Nearest numbers -/

/-- What is nearest to two numbers is in their order. -/
theorem le_of_abs_sub_le {p q a b : ℚ} (lt : p < q) (near : |p - a| ≤ |p - b|)
    (near' : |q - b| ≤ |q - a|) : a ≤ b := by
  rw [← sq_le_sq] at near near'
  by_contra above
  nlinarith [mul_pos (sub_pos.mpr lt) (sub_pos.mpr (not_le.mp above))]

namespace RoundsTo

variable {p q : ℚ} {v w : Finite}

/-- No number is nearer, on the scale of the one that is rounded to. A number of a lower exponent is
at least half a unit below the least significand that has all of its bits. -/
theorem abs_sub_le (h : RoundsTo q v) (hv : v.Canonical) (hw : w.Canonical) :
    |q - v.magnitude| ≤ |q - w.magnitude| := by
  have unit : (0 : ℚ) < 2 ^ v.exponent := zpow_pos two_pos _
  obtain ⟨y, hy⟩ : ∃ y, q = y * 2 ^ v.exponent :=
    ⟨q / 2 ^ v.exponent, (div_mul_cancel₀ _ unit.ne').symm⟩
  obtain ⟨z, hz⟩ : ∃ z, w.magnitude = z * 2 ^ v.exponent :=
    ⟨w.magnitude / 2 ^ v.exponent, (div_mul_cancel₀ _ unit.ne').symm⟩
  have near := h.nearest.near
  have short := h.short
  rw [hy, mul_div_cancel_right₀ _ unit.ne'] at near short
  rw [hy, hz, Finite.magnitude, ← sub_mul, ← sub_mul, abs_mul, abs_mul]
  refine mul_le_mul_of_nonneg_right ?_ (abs_nonneg _)
  obtain ⟨near, near'⟩ := abs_le.mp near
  by_cases fine : v.exponent ≤ w.exponent
  · obtain ⟨n, hn⟩ : ∃ n : ℕ, z = n := by
      refine ⟨w.significand * 2 ^ (w.exponent - v.exponent).toNat, mul_right_cancel₀ unit.ne' ?_⟩
      rw [← hz, Finite.magnitude, Nat.cast_mul, mul_assoc, Nat.cast_pow, Nat.cast_ofNat,
        two_pow_mul_zpow]
      congr 2
      omega
    obtain below | same | above := lt_trichotomy n v.significand
    · have below : (n : ℚ) + 1 ≤ v.significand := by exact_mod_cast below
      rw [hn, abs_of_nonneg (by linarith : 0 ≤ y - n), abs_le]
      constructor <;> linarith
    · rw [hn, same]
    · have above : (v.significand : ℚ) + 1 ≤ n := by exact_mod_cast above
      rw [hn, abs_of_nonpos (by linarith : y - n ≤ 0), abs_le]
      constructor <;> linarith
  · have coarse : w.exponent < v.exponent := not_le.mp fine
    have above : -1074 < v.exponent := hw.least.trans_lt coarse
    have full : 2 ^ 52 ≤ v.significand := hv.full.resolve_right above.ne'
    have low : z ≤ 2 ^ 52 - 1 / 2 := by
      refine le_of_mul_le_mul_right ?_ unit
      rw [← hz]
      exact Finite.mul_zpow_le_of_lt hw.lt coarse
    obtain hidden | more := full.eq_or_lt
    · have short := short hidden.symm above
      rw [← hidden] at near near' short ⊢
      push_cast at near near' short ⊢
      rw [abs_of_nonneg (by linarith : 0 ≤ y - z), abs_le]
      constructor <;> linarith
    · have more : ((2 ^ 52 + 1 : ℕ) : ℚ) ≤ v.significand := by exact_mod_cast more
      push_cast at more
      rw [abs_of_nonneg (by linarith : 0 ≤ y - z), abs_le]
      constructor <;> linarith

end RoundsTo

/-- What is at most half of the least number above zero is rounded away. -/
theorem roundWithAccuracy_eq_zero {q : ℚ} {negative : Bool} (h : RoundsTo q ⟨negative, 0, -1074⟩)
    {m : Nat} {e : Int} {accuracy : Accuracy}
    (hd : Describes (.ofMantissaAndAccuracy m accuracy) (q / 2 ^ e))
    (precise : e ≤ -1074 ∨ 2 ^ 52 ≤ m) (s : Sign) :
    roundWithAccuracy .binary64 s m e accuracy = .zero s := by
  have small : q ≤ 2 ^ (-1075 : ℤ) := by
    have ge := h.ge
    simp only [Nat.cast_zero, zero_add] at ge
    rwa [show (-1075 : ℤ) = -1074 - 1 from rfl, zpow_sub_one₀ two_ne_zero, mul_comm, ← one_div]
  have total : totalExponent m e - 53 ≤ -1074 := by
    by_cases none : m = 0
    · subst none
      rw [totalExponent, Nat.log2_zero]
      omega
    · have := (zpow_le_zpow_iff_right₀ (one_lt_two (α := ℚ))).mp ((hd.total.2 none).trans small)
      omega
  have target : Format.binary64.targetExponent (totalExponent m e) = -1074 := by
    rw [targetExponent_eq, max_eq_right total]
  have le : e ≤ -1074 := by
    refine precise.elim id fun full => ?_
    have := (Nat.le_log2 (by omega)).mpr full
    rw [totalExponent] at total
    omega
  obtain ⟨shifted, exponent⟩ := hd.shiftToExponent le
  have first : (shiftToTargetExponent .binary64 m e accuracy).1.roundedMantissa = 0 := by
    rw [shiftToTargetExponent, target]
    exact shifted.roundedMantissa h.nearest
  have second : (shiftToTargetExponent .binary64 m e accuracy).2 = -1074 := by
    rw [shiftToTargetExponent, target]
    exact exponent
  have still : (shiftToTargetExponent .binary64 0 (-1074) .exact).1.mantissa = 0 := by
    decide
  rw [roundWithAccuracy]
  simp only [first, second, still]
  rfl

/-- A mantissa of enough bits rounds to the number to which its number rounds, zero or not. -/
theorem decode_roundWithAccuracy {q : ℚ} {v : Finite} (h : RoundsTo q v) (hv : v.Canonical)
    (positive : v.negative = false) {m : Nat} {e : Int} {accuracy : Accuracy}
    (hd : Describes (.ofMantissaAndAccuracy m accuracy) (q / 2 ^ e))
    (precise : e ≤ -1074 ∨ 2 ^ 52 ≤ m) :
    decode (.ofModel (.pack (roundWithAccuracy .binary64 .positive m e accuracy))) =
      .finite v := by
  obtain none | some := Nat.eq_zero_or_pos v.significand
  · obtain ⟨negative, n, e'⟩ := v
    obtain rfl : n = 0 := none
    obtain rfl : e' = -1074 := hv.full.resolve_left (by simp)
    obtain rfl : negative = false := positive
    rw [roundWithAccuracy_eq_zero h hd precise]
    decide
  · have rounded := roundWithAccuracy_eq hv some h hd precise
    rw [positive] at rounded
    rw [show Sign.positive = signOf false from rfl, rounded]
    exact Finite.decode_toFloat hv some

namespace RoundsTo

variable {p q : ℚ} {v w : Finite}

theorem withSign (h : RoundsTo q v) (negative : Bool) :
    RoundsTo q ⟨negative, v.significand, v.exponent⟩ :=
  ⟨h.nearest, h.short⟩

/-- There is only one number to round to, since ties go to an even significand. -/
theorem magnitude_eq (h : RoundsTo q v) (h' : RoundsTo q w) (hv : v.Canonical) (hw : w.Canonical)
    (nonneg : 0 ≤ q) : v.magnitude = w.magnitude := by
  have units : 0 ≤ q / 2 ^ (-1074 : ℤ) := div_nonneg nonneg (zpow_pos two_pos _).le
  have described := describes_fraction (q / 2 ^ (-1074 : ℤ)).num.toNat
    (q / 2 ^ (-1074 : ℤ)).den_pos
  rw [num_div_den_of_nonneg units] at described
  have first := decode_roundWithAccuracy (h.withSign false)
    ⟨hv.lt, hv.least, hv.greatest, hv.full⟩ rfl described (.inl le_rfl)
  have second := decode_roundWithAccuracy (h'.withSign false)
    ⟨hw.lt, hw.least, hw.greatest, hw.full⟩ rfl described (.inl le_rfl)
  have same := Datum.finite.inj (first.symm.trans second)
  rw [Finite.mk.injEq] at same
  rw [Finite.magnitude, Finite.magnitude, same.2.1, same.2.2]

/-- Rounding keeps the order. -/
theorem magnitude_le (h : RoundsTo p v) (h' : RoundsTo q w) (hv : v.Canonical) (hw : w.Canonical)
    (nonneg : 0 ≤ p) (le : p ≤ q) : v.magnitude ≤ w.magnitude := by
  obtain rfl | lt := le.eq_or_lt
  · exact (h.magnitude_eq h' hv hw nonneg).le
  · exact le_of_abs_sub_le lt (h.abs_sub_le hv hw) (h'.abs_sub_le hw hv)

theorem error_le (h : RoundsTo q v) : |q - v.magnitude| ≤ 2 ^ v.exponent / 2 := by
  have unit : (0 : ℚ) < 2 ^ v.exponent := zpow_pos two_pos _
  have near := h.nearest.near
  rw [div_sub' unit.ne', abs_div, abs_of_pos unit, div_le_iff₀ unit] at near
  rw [Finite.magnitude, mul_comm (v.significand : ℚ)]
  linarith

/-- What needs no more bits than a significand has is kept. -/
theorem magnitude_of_units {k : ℕ} {e : ℤ} (h : RoundsTo (k * 2 ^ e) v) (hv : v.Canonical)
    (bits : k < 2 ^ 53) (least : -1074 ≤ e) : v.magnitude = k * 2 ^ e := by
  have unit : (0 : ℚ) < 2 ^ v.exponent := zpow_pos two_pos _
  obtain ⟨near, near'⟩ := abs_le.mp h.nearest.near
  by_cases fine : v.exponent ≤ e
  · obtain ⟨n, hn⟩ : ∃ n : ℕ, (k * 2 ^ e : ℚ) = n * 2 ^ v.exponent := by
      refine ⟨k * 2 ^ (e - v.exponent).toNat, ?_⟩
      rw [Nat.cast_mul, mul_assoc, Nat.cast_pow, Nat.cast_ofNat, two_pow_mul_zpow]
      congr 2
      omega
    rw [hn, mul_div_cancel_right₀ _ unit.ne'] at near near'
    have same : n = v.significand := by
      have below : n < v.significand + 1 := by
        exact_mod_cast (by linarith : (n : ℚ) < v.significand + 1)
      have above : v.significand < n + 1 := by
        exact_mod_cast (by linarith : (v.significand : ℚ) < n + 1)
      omega
    rw [hn, same, Finite.magnitude]
  · -- Otherwise a significand with all of its bits is reached from less than half of the next power.
    have coarse : e < v.exponent := not_le.mp fine
    have above : -1074 < v.exponent := least.trans_lt coarse
    have full : 2 ^ 52 ≤ v.significand := hv.full.resolve_right above.ne'
    have half : (k * 2 ^ e : ℚ) / 2 ^ v.exponent ≤ 2 ^ 52 - 1 / 2 :=
      (div_le_iff₀ unit).mpr (Finite.mul_zpow_le_of_lt bits coarse)
    have hidden : v.significand = 2 ^ 52 := by
      have : v.significand < 2 ^ 52 + 1 := by
        exact_mod_cast (by linarith : (v.significand : ℚ) < 2 ^ 52 + 1)
      omega
    have short := h.short hidden above
    rw [hidden] at short
    push_cast at short
    linarith

end RoundsTo

/-! ### Numbers that are rounded to -/

theorem isFinite_iff_decode {x : Float} : x.isFinite = true ↔ ∃ v, decode x = .finite v := by
  constructor
  · intro finite
    obtain rfl | ⟨negative, rfl⟩ | ⟨negative, rfl⟩ | ⟨v, hx, -⟩ := kinds x
    · cases finite
    · cases negative <;> cases finite
    · exact ⟨_, decode_zero negative⟩
    · exact ⟨v, hx⟩
  · rintro ⟨v, hx⟩
    obtain rfl | ⟨negative, rfl⟩ | ⟨negative, rfl⟩ | ⟨w, hw, pos⟩ := kinds x
    · cases decode_nan.symm.trans hx
    · cases (decode_infinity negative).symm.trans hx
    · cases negative <;> rfl
    · change x.toModel.unpack.isFinite = true
      rw [unpack_of_decode hw pos]
      rfl

/-- The value of a finite number; others have none and give zero. -/
def value (x : Float) : ℚ :=
  match decode x with
  | .finite v => v.value
  | _ => 0

section Order

variable {x y : Float}

theorem value_of_decode {v : Finite} (h : decode x = .finite v) : value x = v.value := by
  rw [value, h]

theorem value_zero : value 0.0 = 0 :=
  (value_of_decode (decode_zero false)).trans (Finite.value_of_significand_eq_zero rfl)

theorem lt_iff_value (hx : x.isFinite = true) (hy : y.isFinite = true) :
    x < y ↔ value x < value y := by
  obtain ⟨v, hv⟩ := isFinite_iff_decode.mp hx
  obtain ⟨w, hw⟩ := isFinite_iff_decode.mp hy
  rw [lt_iff_rank, value_of_decode hv, value_of_decode hw]
  refine ⟨fun h => value_lt_of_rank_lt hv hw h.2.2,
    fun h => ⟨isNaN_of_isFinite hx, isNaN_of_isFinite hy, ?_⟩⟩
  by_contra not
  obtain same | above := (not_lt.mp not).eq_or_lt
  · exact h.ne' (value_eq_of_rank_eq hw hv same)
  · exact h.asymm (value_lt_of_rank_lt hw hv above)

theorem not_lt_iff (hx : x.isNaN = false) (hy : y.isNaN = false) : ¬ y < x ↔ x ≤ y := by
  rw [lt_iff_rank, le_iff_rank, hx, hy]
  simp

theorem le_iff_value (hx : x.isFinite = true) (hy : y.isFinite = true) :
    x ≤ y ↔ value x ≤ value y := by
  rw [← not_lt_iff (isNaN_of_isFinite hx) (isNaN_of_isFinite hy), lt_iff_value hy hx, not_lt]

theorem beq_iff_value (hx : x.isFinite = true) (hy : y.isFinite = true) :
    (x == y) = true ↔ value x = value y := by
  have hx' := isNaN_of_isFinite hx
  have hy' := isNaN_of_isFinite hy
  rw [beq_iff_rank, le_antisymm_iff (a := value x), ← le_iff_value hx hy, ← le_iff_value hy hx,
    le_iff_rank, le_iff_rank, le_antisymm_iff (a := rank x)]
  simp only [hx', hy', true_and]

theorem lt_infinity (hx : x.isFinite = true) : x < infinity := by
  obtain ⟨v, hv⟩ := isFinite_iff_decode.mp hx
  refine lt_iff_rank.mpr ⟨isNaN_of_isFinite hx, rfl, ?_⟩
  change _ < toLex (2, toLex (0, 0))
  rcases rank_cases hv with ⟨-, r⟩ | ⟨-, -, r⟩ | ⟨-, -, r⟩ <;>
    simp [r, Prod.Lex.lt_iff]

instance isTrans_lt : IsTrans Float (· < ·) where
  trans _ _ _ h h' := by
    obtain ⟨hx, -, lt⟩ := lt_iff_rank.mp h
    obtain ⟨-, hz, lt'⟩ := lt_iff_rank.mp h'
    exact lt_iff_rank.mpr ⟨hx, hz, lt.trans lt'⟩

theorem lt_iff_le_and_not_beq : x < y ↔ x ≤ y ∧ (x == y) = false := by
  have differ : (x == y) = false ↔
      ¬ (x.isNaN = false ∧ y.isNaN = false ∧ rank x = rank y) := by
    rw [← beq_iff_rank, Bool.not_eq_true]
  rw [lt_iff_rank, le_iff_rank, differ]
  constructor
  · rintro ⟨hx, hy, lt⟩
    exact ⟨⟨hx, hy, lt.le⟩, fun same => lt.ne same.2.2⟩
  · rintro ⟨⟨hx, hy, le⟩, differ⟩
    exact ⟨hx, hy, le.lt_of_ne fun same => differ ⟨hx, hy, same⟩⟩

theorem float_le_trans {x y z : Float} (h : x ≤ y) (h' : y ≤ z) : x ≤ z := by
  obtain ⟨hx, -, le⟩ := le_iff_rank.mp h
  obtain ⟨-, hz, le'⟩ := le_iff_rank.mp h'
  exact le_iff_rank.mpr ⟨hx, hz, le.trans le'⟩

theorem float_le_of_lt (h : x < y) : x ≤ y := by
  obtain ⟨hx, hy, lt⟩ := lt_iff_rank.mp h
  exact le_iff_rank.mpr ⟨hx, hy, lt.le⟩

theorem float_not_le_of_lt (h : x < y) : ¬ y ≤ x := fun le =>
  (lt_iff_rank.mp h).2.2.not_ge (le_iff_rank.mp le).2.2

end Order

/-- A finite number that is not below zero. -/
structure IsNonneg (x : Float) : Prop where
  finite : x.isFinite = true
  nonneg : 0 ≤ value x

/-- What a rational that is not below zero rounds to: a number or, from half a unit beyond the
greatest one, infinity. -/
inductive Rounds (q : ℚ) : Float → Prop
  | finite {x : Float} {v : Finite} (lt : q < overflow) (decoded : decode x = .finite v)
      (nonneg : 0 ≤ v.value) (rounds : RoundsTo q v) : Rounds q x
  | infinity (le : overflow ≤ q) : Rounds q infinity

namespace Rounds

variable {p q : ℚ} {x y : Float}

theorem isFinite_iff (h : Rounds q x) : x.isFinite = true ↔ q < overflow := by
  cases h with
  | finite lt decoded => exact iff_of_true (isFinite_iff_decode.mpr ⟨_, decoded⟩) lt
  | infinity le => exact iff_of_false (by decide) le.not_gt

theorem isNonneg (h : Rounds q x) (finite : x.isFinite = true) : IsNonneg x := by
  cases h with
  | finite lt decoded nonneg => exact ⟨finite, (value_of_decode decoded).ge.trans' nonneg⟩
  | infinity => cases finite

theorem le (h : Rounds p x) (h' : Rounds q y) (nonneg : 0 ≤ p) (le : p ≤ q) : x ≤ y := by
  cases h with
  | infinity above =>
    cases h' with
    | infinity => decide
    | finite lt => exact absurd lt (above.trans le).not_gt
  | finite _ hx nonneg' rounds =>
    have finite := isFinite_iff_decode.mpr ⟨_, hx⟩
    cases h' with
    | infinity => exact float_le_of_lt (lt_infinity finite)
    | finite _ hy nonneg'' rounds' =>
      rw [le_iff_value finite (isFinite_iff_decode.mpr ⟨_, hy⟩), value_of_decode hx,
        value_of_decode hy, Finite.value_of_nonneg nonneg', Finite.value_of_nonneg nonneg'']
      exact rounds.magnitude_le rounds' (canonical_of_decode hx) (canonical_of_decode hy) nonneg le

end Rounds

namespace Finite.Canonical

theorem magnitude_lt_overflow {v : Finite} (hv : v.Canonical) : v.magnitude < overflow := by
  have bits : ((v.significand + 1 : ℕ) : ℚ) ≤ (2 ^ 53 : ℕ) := by exact_mod_cast hv.lt
  push_cast at bits
  calc
    v.magnitude ≤ v.significand * 2 ^ (971 : ℤ) :=
      mul_le_mul_of_nonneg_left (zpow_le_zpow_right₀ one_le_two hv.greatest) (Nat.cast_nonneg _)
    _ < (2 ^ 53 - 1 / 2) * 2 ^ (971 : ℤ) :=
      mul_lt_mul_of_pos_right (by linarith) (zpow_pos two_pos _)
    _ = overflow := overflow_eq_zpow.symm

end Finite.Canonical

namespace IsNonneg

variable {x : Float}

theorem exists_decode (h : IsNonneg x) :
    ∃ v, decode x = .finite v ∧ 0 ≤ v.value ∧ value x = v.magnitude := by
  obtain ⟨v, hv⟩ := isFinite_iff_decode.mp h.finite
  have nonneg := h.nonneg
  rw [value_of_decode hv] at nonneg
  exact ⟨v, hv, nonneg, by rw [value_of_decode hv, Finite.value_of_nonneg nonneg]⟩

theorem rounds (h : IsNonneg x) : Rounds (value x) x := by
  obtain ⟨v, hv, nonneg, eq⟩ := h.exists_decode
  rw [eq]
  exact .finite (canonical_of_decode hv).magnitude_lt_overflow hv nonneg (roundsTo_magnitude v)

/-- Every number is an integer number of the least one above zero. -/
theorem exists_units (h : IsNonneg x) : ∃ n : ℕ, value x = n * 2 ^ (-1074 : ℤ) := by
  obtain ⟨v, hv, -, eq⟩ := h.exists_decode
  have least := (canonical_of_decode hv).least
  refine ⟨v.significand * 2 ^ (v.exponent + 1074).toNat, ?_⟩
  rw [eq, Finite.magnitude, Nat.cast_mul, mul_assoc, Nat.cast_pow, Nat.cast_ofNat,
    two_pow_mul_zpow]
  congr 2
  omega

theorem value_lt_overflow (h : IsNonneg x) : value x < overflow := h.rounds.isFinite_iff.mp h.finite

end IsNonneg

namespace Rounds

variable {q : ℚ} {x y : Float}

theorem value_le (h : Rounds q x) (hy : IsNonneg y) (nonneg : 0 ≤ q) (le : q ≤ value y) :
    IsNonneg x ∧ value x ≤ value y := by
  have finite := h.isFinite_iff.mpr (le.trans_lt hy.value_lt_overflow)
  exact ⟨h.isNonneg finite, (le_iff_value finite hy.finite).mp (h.le hy.rounds nonneg le)⟩

theorem le_value (h : Rounds q x) (finite : x.isFinite = true) (hy : IsNonneg y)
    (le : value y ≤ q) : value y ≤ value x :=
  (le_iff_value hy.finite finite).mp (hy.rounds.le h hy.nonneg le)

theorem value_eq (h : Rounds (value y) x) (hy : IsNonneg y) : IsNonneg x ∧ value x = value y := by
  obtain ⟨hx, le⟩ := h.value_le hy hy.nonneg le_rfl
  exact ⟨hx, le.antisymm (h.le_value hx.finite hy le_rfl)⟩

theorem lt_of_value_lt (h : Rounds q x) (hy : IsNonneg y) (nonneg : 0 ≤ q)
    (lt : value y < value x) : value y < q := by
  by_contra not
  exact lt.not_ge (h.value_le hy nonneg (not_lt.mp not)).2

theorem value_of_units {k : ℕ} {e : ℤ} (h : Rounds (k * 2 ^ e) x) (finite : x.isFinite = true)
    (bits : k < 2 ^ 53) (least : -1074 ≤ e) : value x = k * 2 ^ e := by
  cases h with
  | infinity => cases finite
  | finite _ hx nonneg rounds =>
    rw [value_of_decode hx, Finite.value_of_nonneg nonneg]
    exact rounds.magnitude_of_units (canonical_of_decode hx) bits least

/-- Half a unit in the last place of a greater number. -/
theorem error_le {w : Finite} (h : Rounds q x) (finite : x.isFinite = true) (hy : IsNonneg y)
    (decoded : decode y = .finite w) (le : value x ≤ value y) :
    |q - value x| ≤ 2 ^ w.exponent / 2 := by
  cases h with
  | infinity => cases finite
  | finite _ hx nonneg rounds =>
    obtain ⟨w', hw, -, value⟩ := hy.exists_decode
    obtain rfl := Datum.finite.inj (decoded.symm.trans hw)
    rw [value_of_decode hx, Finite.value_of_nonneg nonneg] at le ⊢
    have exponents := (canonical_of_decode hx).exponent_le (canonical_of_decode hw) (le.trans value.le)
    refine rounds.error_le.trans (div_le_div_of_nonneg_right ?_ two_pos.le)
    exact zpow_le_zpow_right₀ one_le_two exponents

end Rounds

end LowThrust.Binary64
