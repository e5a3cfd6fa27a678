import Mathlib
import LowThrust.Proofs.Binary64.Packing

/-!
Rounding to the nearest number, ties to the even significand. A mantissa with its residual bits
describes a rational number; shifting keeps the description, and rounding a number that lies within
half a unit of a value gives the value.
-/

namespace LowThrust.Binary64

open Float.Model (Format UnpackedFloat totalExponent)
open Float.Model.UnpackedFloat

/-! ### Residual bits -/

/-- The residual bits of a mantissa tell on which side of the middle between it and the next one a
number lies. -/
structure Describes (em : ExtendedMantissa) (y : ℚ) : Prop where
  le : em.mantissa ≤ y
  lt : y < em.mantissa + 1
  round : em.roundBit = true ↔ em.mantissa + 1 / 2 ≤ y
  sticky : em.stickyBit = false ↔ y = em.mantissa ∨ y = em.mantissa + 1 / 2

theorem describes_exact (m : Nat) :
    Describes (.ofMantissaAndAccuracy m .exact) m where
  le := le_refl _
  lt := by simp [ExtendedMantissa.ofMantissaAndAccuracy]
  round := by simp [ExtendedMantissa.ofMantissaAndAccuracy]
  sticky := by simp [ExtendedMantissa.ofMantissaAndAccuracy]

theorem describes_inexact (m : Nat) {r : ℚ} (above : 0 < r) (below : r < 1) {order : Ordering}
    (half : compare r (1 / 2) = order) :
    Describes (.ofMantissaAndAccuracy m (.inexact order)) (m + r) := by
  cases order with
  | lt =>
    rw [compare_lt_iff_lt] at half
    constructor <;> simp only [ExtendedMantissa.ofMantissaAndAccuracy]
    · linarith
    · linarith
    · simp only [Bool.false_eq_true, false_iff, not_le]
      linarith
    · simp only [Bool.true_eq_false, false_iff, not_or]
      exact ⟨by linarith, by linarith⟩
  | eq =>
    rw [compare_eq_iff_eq] at half
    constructor <;> simp only [ExtendedMantissa.ofMantissaAndAccuracy]
    · linarith
    · linarith
    · simp only [true_iff]
      linarith
    · simp only [true_iff]
      exact Or.inr (by rw [half])
  | gt =>
    rw [compare_gt_iff_gt] at half
    constructor <;> simp only [ExtendedMantissa.ofMantissaAndAccuracy]
    · linarith
    · linarith
    · simp only [true_iff]
      linarith
    · simp only [Bool.true_eq_false, false_iff, not_or]
      exact ⟨by linarith, by linarith⟩

theorem describes_fraction (num : Nat) {den : Nat} (h : 0 < den) :
    Describes (.ofMantissaAndAccuracy (num / den) (accuracyOfFraction (num % den) den))
      (num / den : ℚ) := by
  have pos : (0 : ℚ) < den := by exact_mod_cast h
  have value : (num / den : ℚ) = (num / den : Nat) + (num % den : Nat) / den := by
    have whole : (num : ℚ) = den * (num / den : Nat) + (num % den : Nat) := by
      exact_mod_cast (Nat.div_add_mod num den).symm
    rw [div_eq_iff pos.ne', add_mul, div_mul_cancel₀ _ pos.ne', whole]
    ring
  rw [value, accuracyOfFraction]
  split
  · next zero =>
    rw [zero, Nat.cast_zero, zero_div, add_zero]
    exact describes_exact _
  · next some =>
    apply describes_inexact
    · refine div_pos ?_ pos
      exact_mod_cast Nat.pos_of_ne_zero some
    · rw [div_lt_one pos]
      exact_mod_cast Nat.mod_lt num h
    · cases order : compare (2 * (num % den)) den with
      | lt =>
        have := Nat.compare_eq_lt.mp order
        rw [compare_lt_iff_lt, div_lt_div_iff₀ pos two_pos]
        exact_mod_cast (by omega : num % den * 2 < 1 * den)
      | eq =>
        have := Nat.compare_eq_eq.mp order
        rw [compare_eq_iff_eq, div_eq_div_iff pos.ne' two_ne_zero]
        exact_mod_cast (by omega : num % den * 2 = 1 * den)
      | gt =>
        have := Nat.compare_eq_gt.mp order
        rw [compare_gt_iff_gt, div_lt_div_iff₀ two_pos pos]
        exact_mod_cast (by omega : 1 * den < num % den * 2)

namespace Describes

variable {em : ExtendedMantissa} {y : ℚ}

/-- No residual bit is set if the mantissa is all of the number. -/
theorem exact_iff (h : Describes em y) :
    (em.roundBit || em.stickyBit) = false ↔ y = em.mantissa := by
  rw [Bool.or_eq_false_iff, h.sticky, ← Bool.not_eq_true, h.round]
  constructor
  · rintro ⟨below, eq | eq⟩
    · exact eq
    · exact absurd eq.ge below
  · rintro eq
    exact ⟨by linarith, Or.inl eq⟩

theorem shiftRightOne (h : Describes em y) : Describes em.shiftRightOne (y / 2) := by
  have exact_iff := h.exact_iff
  obtain ⟨m, r, s⟩ := em
  obtain ⟨le, lt, -, -⟩ := h
  simp only at le lt exact_iff
  have parts : (m : ℚ) = 2 * (m / 2 : Nat) + (m % 2 : Nat) := by
    exact_mod_cast (Nat.div_add_mod m 2).symm
  have bit : m % 2 = 0 ∨ m % 2 = 1 := by omega
  simp only [ExtendedMantissa.shiftRightOne]
  obtain even | odd := bit
  · rw [even, Nat.cast_zero, add_zero] at parts
    refine ⟨by linarith, by linarith, ?_, ?_⟩
    · simp only [even, bne_self_eq_false, Bool.false_eq_true, false_iff, not_le]
      linarith
    · rw [exact_iff]
      constructor
      · intro eq
        exact Or.inl (by linarith)
      · rintro (eq | eq) <;> linarith
  · rw [odd, Nat.cast_one] at parts
    refine ⟨by linarith, by linarith, ?_, ?_⟩
    · simp only [odd, bne_iff_ne, ne_eq, one_ne_zero, not_false_iff, true_iff]
      linarith
    · rw [exact_iff]
      constructor
      · intro eq
        exact Or.inr (by linarith)
      · rintro (eq | eq) <;> linarith

end Describes

theorem Describes.shiftRight {em : ExtendedMantissa} {y : ℚ} (h : Describes em y) (n : Nat) :
    Describes (em >>> n) (y / 2 ^ n) := by
  change Describes (n.repeat ExtendedMantissa.shiftRightOne em) _
  induction n with
  | zero => simpa [Nat.repeat] using h
  | succ n ih =>
    rw [pow_succ, ← div_div]
    exact ih.shiftRightOne

/-- The integers that are nearest to a number, the even one of two. -/
structure Nearest (y : ℚ) (n : Nat) : Prop where
  near : |y - n| ≤ 1 / 2
  even : |y - n| = 1 / 2 → n % 2 = 0

theorem Describes.roundedMantissa {em : ExtendedMantissa} {y : ℚ} (h : Describes em y) {n : Nat}
    (hn : Nearest y n) : em.roundedMantissa = n := by
  obtain ⟨m, r, s⟩ := em
  obtain ⟨le, lt, round, sticky⟩ := h
  obtain ⟨near, even⟩ := hn
  simp only at le lt round sticky
  rw [abs_le] at near
  have bounds : m ≤ n ∧ n ≤ m + 1 := by
    constructor
    · have : (m : ℚ) < n + 1 := by linarith
      exact Nat.lt_succ_iff.mp (by exact_mod_cast this)
    · have : (n : ℚ) < m + 1 + 1 := by linarith
      exact Nat.lt_succ_iff.mp (by exact_mod_cast this)
  cases r with
  | false =>
    have half : y < m + 1 / 2 := not_le.mp (mt round.mpr Bool.false_ne_true)
    have lower : n = m := by
      have : (n : ℚ) < m + 1 := by linarith
      have : n < m + 1 := by exact_mod_cast this
      omega
    rw [lower]
    cases s <;> rfl
  | true =>
    have half : m + 1 / 2 ≤ y := round.mp rfl
    cases s with
    | true =>
      have ne : y ≠ m + 1 / 2 := fun eq => Bool.true_eq_false.mp (sticky.mpr (Or.inr eq))
      have upper : n = m + 1 := by
        have : (m : ℚ) < n := by linarith [lt_of_le_of_ne half ne.symm]
        have : m < n := by exact_mod_cast this
        omega
      rw [upper]
      rfl
    | false =>
      have middle : y = m + 1 / 2 := by
        obtain eq | eq := sticky.mp rfl
        · linarith
        · exact eq
      have tie : |y - n| = 1 / 2 := by
        obtain eq | eq : n = m ∨ n = m + 1 := by omega
        · rw [middle, eq, add_sub_cancel_left]
          norm_num
        · rw [middle, eq]
          push_cast
          rw [add_sub_add_left_eq_sub]
          norm_num
      have := even tie
      change m + m % 2 = n
      omega

/-! ### Rounding to a value -/

/-- The numbers that round to a value. The number below a power of two is half as far away from it
as the one above. -/
structure RoundsTo (x : ℚ) (v : Finite) : Prop where
  nearest : Nearest (x / 2 ^ v.exponent) v.significand
  short : v.significand = 2 ^ 52 → -1074 < v.exponent →
    v.significand - x / 2 ^ v.exponent ≤ 1 / 4

theorem targetExponent_eq (total : Int) :
    Format.binary64.targetExponent total = max (total - 53) (-1074) := rfl

theorem Describes.shiftToExponent {m : Nat} {e t : Int} {accuracy : Accuracy} {x : ℚ}
    (h : Describes (.ofMantissaAndAccuracy m accuracy) (x / 2 ^ e)) (le : e ≤ t) :
    Describes (shiftToExponent m e accuracy t).1 (x / 2 ^ t) ∧
      (Float.Model.UnpackedFloat.shiftToExponent m e accuracy t).2 = t := by
  have amount : e + ((t - e).toNat : Int) = t := by omega
  have shifted := h.shiftRight (t - e).toNat
  rw [div_div, ← zpow_natCast, ← zpow_add₀ two_ne_zero, amount] at shifted
  exact ⟨shifted, amount⟩

theorem two_pow_mul_zpow (n : Nat) (e : Int) : (2 : ℚ) ^ n * 2 ^ e = 2 ^ (n + e) := by
  rw [zpow_add₀ two_ne_zero, zpow_natCast]

@[simp] theorem mantissa_ofMantissaAndAccuracy (m : Nat) (accuracy : Accuracy) :
    (ExtendedMantissa.ofMantissaAndAccuracy m accuracy).mantissa = m := by
  cases accuracy with
  | exact => rfl
  | inexact order => cases order <;> rfl

/-- The total exponent bounds a number and, if its mantissa is not zero, is the least that does. -/
theorem Describes.total {m : Nat} {e : Int} {accuracy : Accuracy} {x : ℚ}
    (h : Describes (.ofMantissaAndAccuracy m accuracy) (x / 2 ^ e)) :
    x < 2 ^ totalExponent m e ∧ (m ≠ 0 → 2 ^ (totalExponent m e - 1) ≤ x) := by
  have pos : (0 : ℚ) < 2 ^ e := zpow_pos two_pos e
  have le := h.le
  have lt := h.lt
  rw [mantissa_ofMantissaAndAccuracy, le_div_iff₀ pos] at le
  rw [mantissa_ofMantissaAndAccuracy, div_lt_iff₀ pos] at lt
  constructor
  · have bound : ((m + 1 : Nat) : ℚ) ≤ (2 ^ (m.log2 + 1) : Nat) := by
      exact_mod_cast Nat.lt_log2_self
    push_cast at bound
    calc
      x < (m + 1) * 2 ^ e := lt
      _ ≤ 2 ^ (m.log2 + 1) * 2 ^ e := mul_le_mul_of_nonneg_right bound pos.le
      _ = 2 ^ totalExponent m e := by rw [two_pow_mul_zpow, totalExponent]; push_cast; rfl
  · intro hm
    have bound : ((2 ^ m.log2 : Nat) : ℚ) ≤ m := by exact_mod_cast Nat.log2_self_le hm
    push_cast at bound
    calc
      (2 : ℚ) ^ (totalExponent m e - 1) = 2 ^ m.log2 * 2 ^ e := by
        rw [two_pow_mul_zpow, totalExponent]
        congr 1
        ring
      _ ≤ m * 2 ^ e := mul_le_mul_of_nonneg_right bound pos.le
      _ ≤ x := le

namespace RoundsTo

variable {x : ℚ} {v : Finite}

theorem le (h : RoundsTo x v) : (v.significand - 1 / 2) * 2 ^ v.exponent ≤ x := by
  have near := (abs_le.mp h.nearest.near).1
  rw [← le_div_iff₀ (zpow_pos two_pos _)]
  linarith

theorem ge (h : RoundsTo x v) : x ≤ (v.significand + 1 / 2) * 2 ^ v.exponent := by
  have near := (abs_le.mp h.nearest.near).2
  rw [← div_le_iff₀ (zpow_pos two_pos _)]
  linarith

theorem pos (h : RoundsTo x v) (hv : 0 < v.significand) : 0 < x := by
  have one : (1 : ℚ) ≤ v.significand := by exact_mod_cast hv
  refine lt_of_lt_of_le (mul_pos ?_ (zpow_pos two_pos v.exponent)) h.le
  linarith

theorem total_le (h : RoundsTo x v) (hv : v.Canonical) {total : Int}
    (least : total - 53 ≤ -1074 ∨ 2 ^ (total - 1) ≤ x) : total - 53 ≤ v.exponent := by
  obtain least | least := least
  · exact least.trans hv.least
  · have bound : (v.significand : ℚ) + 1 / 2 < 2 ^ 53 := by
      have : ((v.significand + 1 : Nat) : ℚ) ≤ (2 ^ 53 : Nat) := by exact_mod_cast hv.lt
      push_cast at this
      linarith
    have : (2 : ℚ) ^ (total - 1) < 2 ^ (53 + v.exponent) := by
      calc
        _ ≤ x := least
        _ ≤ (v.significand + 1 / 2) * 2 ^ v.exponent := h.ge
        _ < 2 ^ 53 * 2 ^ v.exponent := mul_lt_mul_of_pos_right bound (zpow_pos two_pos _)
        _ = 2 ^ (53 + v.exponent) := two_pow_mul_zpow 53 _
    have := (zpow_lt_zpow_iff_right₀ one_lt_two).mp this
    omega

theorem lt_total (h : RoundsTo x v) {total : Int} (lt : x < 2 ^ total) {k : Nat}
    (bound : (2 : ℚ) ^ k < v.significand - 1 / 2) : k + v.exponent < total := by
  rw [← zpow_lt_zpow_iff_right₀ (one_lt_two (α := ℚ)), ← two_pow_mul_zpow]
  calc
    (2 : ℚ) ^ k * 2 ^ v.exponent < (v.significand - 1 / 2) * 2 ^ v.exponent :=
      mul_lt_mul_of_pos_right bound (zpow_pos two_pos _)
    _ ≤ x := h.le
    _ < 2 ^ total := lt

/-- A number that rounds to a value has the exponent of the value, or the one before it if it is
below a power of two. -/
theorem exponent_eq (h : RoundsTo x v) (hv : v.Canonical) {total : Int} (lt : x < 2 ^ total)
    (least : total - 53 ≤ -1074 ∨ 2 ^ (total - 1) ≤ x) :
    max (total - 53) (-1074) = v.exponent ∨
      v.significand = 2 ^ 52 ∧ -1074 < v.exponent ∧ total = v.exponent + 52 := by
  have upper := h.total_le hv least
  have exponent := hv.least
  obtain full | subnormal := hv.full
  · have wide : (2 : ℚ) ^ 51 < v.significand - 1 / 2 := by
      have : ((2 ^ 52 : Nat) : ℚ) ≤ v.significand := by exact_mod_cast full
      push_cast at this
      linarith
    have wide := h.lt_total lt wide
    by_cases hidden : v.significand = 2 ^ 52
    · by_cases last : v.exponent = -1074
      · left
        omega
      · by_cases same : total - 53 = v.exponent
        · left
          omega
        · right
          exact ⟨hidden, by omega, by omega⟩
    · have wider : (2 : ℚ) ^ 52 < v.significand - 1 / 2 := by
        have : ((2 ^ 52 + 1 : Nat) : ℚ) ≤ v.significand := by exact_mod_cast (by omega)
        push_cast at this
        linarith
      have wider := h.lt_total lt wider
      left
      omega
  · left
    omega

/-- Below a power of two the significand fills up and is carried. -/
theorem carry (h : RoundsTo x v) (hidden : v.significand = 2 ^ 52) (above : -1074 < v.exponent)
    (lt : x < 2 ^ (v.exponent + 52)) : Nearest (x / 2 ^ (v.exponent - 1)) (2 ^ 53) := by
  have pos : (0 : ℚ) < 2 ^ v.exponent := zpow_pos two_pos _
  have short := h.short hidden above
  have double : x / 2 ^ (v.exponent - 1) = 2 * (x / 2 ^ v.exponent) := by
    rw [zpow_sub_one₀ two_ne_zero]
    field_simp
  have below : x / 2 ^ v.exponent < 2 ^ 52 := by
    rw [div_lt_iff₀ pos, two_pow_mul_zpow, add_comm]
    exact lt
  rw [hidden] at short
  push_cast at short
  rw [double]
  constructor
  · push_cast
    rw [abs_le]
    constructor <;> linarith
  · intro
    rfl

end RoundsTo

theorem Finite.Canonical.targetExponent_eq {v : Finite} (hv : v.Canonical)
    (h : 0 < v.significand) :
    Format.binary64.targetExponent (totalExponent v.significand v.exponent) = v.exponent := by
  have least := hv.least
  rw [Binary64.targetExponent_eq, totalExponent]
  obtain full | subnormal := hv.full
  · have log : v.significand.log2 = 52 := (Nat.log2_eq_iff h.ne').mpr ⟨full, hv.lt⟩
    omega
  · have log : v.significand.log2 < 53 := (Nat.log2_lt h.ne').mpr hv.lt
    omega

/-- What a shift to the target exponent leaves of a significand in canonical form: all of it, or
half of it after a carry. -/
theorem shiftToTargetExponent_eq {v : Finite} (hv : v.Canonical) (h : 0 < v.significand) {r : Nat}
    {t : Int} (ht : r = v.significand ∧ t = v.exponent ∨
      r = 2 ^ 53 ∧ t = v.exponent - 1 ∧ v.significand = 2 ^ 52) :
    (shiftToTargetExponent .binary64 r t .exact).1.mantissa = v.significand ∧
      (shiftToTargetExponent .binary64 r t .exact).2 = v.exponent := by
  rw [shiftToTargetExponent]
  obtain ⟨rfl, rfl⟩ | ⟨rfl, rfl, hidden⟩ := ht
  · rw [hv.targetExponent_eq h, shiftToExponent, sub_self]
    exact ⟨rfl, add_zero _⟩
  · have least := hv.least
    have target : Format.binary64.targetExponent (totalExponent (2 ^ 53) (v.exponent - 1)) =
        v.exponent := by
      rw [targetExponent_eq, totalExponent, Nat.log2_two_pow]
      omega
    have one : (v.exponent - (v.exponent - 1)).toNat = 1 := by omega
    rw [target, shiftToExponent, one, hidden]
    exact ⟨rfl, sub_add_cancel _ _⟩

/-- A mantissa of enough bits rounds to the value to which its number rounds. -/
theorem roundWithAccuracy_eq {v : Finite} (hv : v.Canonical) (h : 0 < v.significand) {x : ℚ}
    (hx : RoundsTo x v) {m : Nat} {e : Int} {accuracy : Accuracy}
    (hd : Describes (.ofMantissaAndAccuracy m accuracy) (x / 2 ^ e))
    (precise : e ≤ -1074 ∨ 2 ^ 52 ≤ m) :
    roundWithAccuracy .binary64 (signOf v.negative) m e accuracy = v.unpacked h := by
  obtain ⟨lt, least⟩ := hd.total
  have log : 2 ^ 52 ≤ m → 52 ≤ m.log2 := fun full => (Nat.le_log2 (by omega)).mpr full
  have small : m ≠ 0 ∨ totalExponent m e - 53 ≤ -1074 := by
    by_cases zero : m = 0
    · subst zero
      right
      simp only [totalExponent, Nat.log2_zero]
      omega
    · exact Or.inl zero
  have exponents := hx.exponent_eq hv lt (small.symm.imp_right least)
  have le : e ≤ Format.binary64.targetExponent (totalExponent m e) := by
    rw [targetExponent_eq, totalExponent]
    omega
  obtain ⟨shifted, target⟩ := hd.shiftToExponent le
  have rounded : ∃ r t, (shiftToTargetExponent .binary64 m e accuracy).1.roundedMantissa = r ∧
      (shiftToTargetExponent .binary64 m e accuracy).2 = t ∧
        (r = v.significand ∧ t = v.exponent ∨
          r = 2 ^ 53 ∧ t = v.exponent - 1 ∧ v.significand = 2 ^ 52) := by
    rw [shiftToTargetExponent, target]
    rw [targetExponent_eq] at shifted ⊢
    obtain same | ⟨hidden, above, total⟩ := exponents
    · rw [same] at shifted ⊢
      exact ⟨_, _, shifted.roundedMantissa hx.nearest, rfl, Or.inl ⟨rfl, rfl⟩⟩
    · have before : max (totalExponent m e - 53) (-1074) = v.exponent - 1 := by omega
      rw [before] at shifted ⊢
      have carried := hx.carry hidden above (by rw [← total]; exact lt)
      exact ⟨_, _, shifted.roundedMantissa carried, rfl, Or.inr ⟨rfl, rfl, hidden⟩⟩
  obtain ⟨r, t, hr, ht, cases⟩ := rounded
  obtain ⟨mantissa, exponent⟩ := shiftToTargetExponent_eq hv h cases
  simp only [roundWithAccuracy, hr, ht, mantissa, exponent]
  rw [dif_neg h.ne']
  rfl

/-! ### Products and quotients -/

section Operations

variable {v : Finite} {m₁ m₂ : Nat} {e₁ e₂ : Int}

theorem mul_eq (hv : v.Canonical) (h : 0 < v.significand) (h₁ : 0 < m₁) (h₂ : 0 < m₂)
    (s₁ s₂ : Sign) (hs : s₁ * s₂ = signOf v.negative)
    (hx : RoundsTo ((m₁ * 2 ^ e₁) * (m₂ * 2 ^ e₂)) v)
    (precise : e₁ + e₂ ≤ -1074 ∨ 2 ^ 52 ≤ m₁ * m₂) :
    mul .binary64 (.finite s₁ m₁ e₁ h₁) (.finite s₂ m₂ e₂ h₂) = v.unpacked h := by
  have value : (m₁ * 2 ^ e₁ * (m₂ * 2 ^ e₂) : ℚ) / 2 ^ (e₁ + e₂) = (m₁ * m₂ : Nat) := by
    rw [zpow_add₀ two_ne_zero]
    push_cast
    field_simp
  have exact := describes_exact (m₁ * m₂)
  rw [← value] at exact
  rw [mul, hs]
  exact roundWithAccuracy_eq hv h hx exact precise

/-- The quotient of significands has enough bits once the dividend is shifted. -/
theorem divCore_eq (h₁ : 0 < m₁) (h₂ : 0 < m₂) (e₁ e₂ : Int) :
    ∃ q t accuracy, divCore .binary64 m₁ e₁ m₂ e₂ = (q, t, accuracy) ∧
      Describes (.ofMantissaAndAccuracy q accuracy) ((m₁ * 2 ^ e₁) / (m₂ * 2 ^ e₂) / 2 ^ t) ∧
        (t ≤ -1074 ∨ 2 ^ 52 ≤ q) := by
  obtain ⟨t, ht⟩ : ∃ t, t = min (e₁ - e₂)
    (Format.binary64.targetExponent (totalExponent m₁ e₁ - totalExponent m₂ e₂)) := ⟨_, rfl⟩
  obtain ⟨k, hk⟩ : ∃ k, k = (e₁ - e₂ - t).toNat := ⟨_, rfl⟩
  have core : divCore .binary64 m₁ e₁ m₂ e₂ =
      (m₁ <<< k / m₂, t, accuracyOfFraction (m₁ <<< k % m₂) m₂) := by
    rw [hk, ht]
    rfl
  rw [targetExponent_eq, totalExponent, totalExponent] at ht
  have shift : (k : Int) = e₁ - e₂ - t := by omega
  have least : t ≤ -1074 ∨ 53 + m₂.log2 ≤ m₁.log2 + k := by omega
  have value : ((m₁ <<< k : Nat) / m₂ : ℚ) = (m₁ * 2 ^ e₁) / (m₂ * 2 ^ e₂) / 2 ^ t := by
    have pos : (0 : ℚ) < m₂ := by exact_mod_cast h₂
    have power : (2 : ℚ) ^ k * 2 ^ e₂ * 2 ^ t = 2 ^ e₁ := by
      rw [two_pow_mul_zpow, ← zpow_add₀ two_ne_zero, shift]
      congr 1
      ring
    rw [Nat.shiftLeft_eq, ← power]
    push_cast
    field_simp
  refine ⟨_, _, _, core, ?_, ?_⟩
  · rw [← value]
    exact describes_fraction _ h₂
  · obtain small | wide := least
    · exact Or.inl small
    · right
      rw [Nat.le_div_iff_mul_le h₂, Nat.shiftLeft_eq]
      calc
        2 ^ 52 * m₂ ≤ 2 ^ 52 * 2 ^ (m₂.log2 + 1) :=
          Nat.mul_le_mul_left _ Nat.lt_log2_self.le
        _ = 2 ^ (53 + m₂.log2) := by rw [← pow_add]; congr 1; ring
        _ ≤ 2 ^ (m₁.log2 + k) := Nat.pow_le_pow_right two_pos wide
        _ = 2 ^ m₁.log2 * 2 ^ k := pow_add 2 _ _
        _ ≤ m₁ * 2 ^ k := Nat.mul_le_mul_right _ (Nat.log2_self_le h₁.ne')

theorem div_eq (hv : v.Canonical) (h : 0 < v.significand) (h₁ : 0 < m₁) (h₂ : 0 < m₂)
    (s₁ s₂ : Sign) (hs : s₁ / s₂ = signOf v.negative)
    (hx : RoundsTo ((m₁ * 2 ^ e₁) / (m₂ * 2 ^ e₂)) v) :
    div .binary64 (.finite s₁ m₁ e₁ h₁) (.finite s₂ m₂ e₂ h₂) = v.unpacked h := by
  obtain ⟨q, t, accuracy, eq, hd, precise⟩ := divCore_eq h₁ h₂ e₁ e₂
  rw [div, eq, hs]
  exact roundWithAccuracy_eq hv h hx hd precise

end Operations

end LowThrust.Binary64
