import Mathlib
import LowThrust.Proofs.Binary64.Order
import LowThrust.Proofs.Binary64.Shortest

/-!
Arithmetic on binary64 numbers that are zero or not finite. Such a number is known by its kind and
its sign, so these laws need no rounding.
-/

namespace LowThrust.Binary64

open Float.Model (UnpackedFloat)
open Float.Model.UnpackedFloat

/-! ### Operands of a finite result -/

theorem isFinite_of_pack {u : UnpackedFloat} (h : (Float.ofModel (.pack u)).isFinite = true) :
    u.isFinite = true := by
  cases u with
  | notANumber => revert h; decide
  | infinity s => cases s <;> revert h <;> decide
  | zero | finite => rfl

theorem isFinite_operands_add {a b : UnpackedFloat} (h : (add .binary64 a b).isFinite = true) :
    a.isFinite = true ∧ b.isFinite = true := by
  cases a with
  | notANumber => cases h
  | infinity s =>
    cases b with
    | infinity t => rw [add] at h; split at h <;> cases h
    | notANumber | zero | finite => cases h
  | zero | finite =>
    cases b with
    | notANumber | infinity => cases h
    | zero | finite => exact ⟨rfl, rfl⟩

theorem isFinite_operands_sub {a b : UnpackedFloat} (h : (sub .binary64 a b).isFinite = true) :
    a.isFinite = true ∧ b.isFinite = true := by
  cases a with
  | notANumber => cases h
  | infinity s =>
    cases b with
    | infinity t => rw [sub] at h; split at h <;> cases h
    | notANumber | zero | finite => cases h
  | zero | finite =>
    cases b with
    | notANumber | infinity => cases h
    | zero | finite => exact ⟨rfl, rfl⟩

theorem isFinite_operands_mul {a b : UnpackedFloat} (h : (mul .binary64 a b).isFinite = true) :
    a.isFinite = true ∧ b.isFinite = true := by
  cases a with
  | notANumber => cases h
  | infinity s => cases b <;> cases h
  | zero | finite =>
    cases b with
    | notANumber | infinity => cases h
    | zero | finite => exact ⟨rfl, rfl⟩

/-! ### Zeros -/

theorem unpack_literal_zero : (0.0 : Float).toModel.unpack = .zero .positive := rfl

theorem beq_zero_iff {x : Float} : (x == 0.0) = true ↔ ∃ s, x.toModel.unpack = .zero s := by
  rw [beq_iff_compare, unpack_literal_zero]
  cases x.toModel.unpack with
  | notANumber => simp [UnpackedFloat.compare]
  | infinity s => cases s <;> simp [UnpackedFloat.compare]
  | zero s => simp [UnpackedFloat.compare]
  | finite s => cases s <;> simp [UnpackedFloat.compare]

/-- A number is none, infinite, zero, or known by a significand that is positive. -/
theorem kinds (x : Float) :
    x = 0.0 / 0.0 ∨ (∃ negative : Bool, x = if negative then -infinity else infinity) ∨
      (∃ negative : Bool, x = if negative then -0.0 else 0.0) ∨
      ∃ v, decode x = .finite v ∧ 0 < v.significand := by
  cases hx : decode x with
  | nan => exact .inl (decode_injective (hx.trans decode_nan.symm))
  | infinite negative =>
    exact .inr (.inl ⟨negative, decode_injective (hx.trans (decode_infinity negative).symm)⟩)
  | finite v =>
    have canonical := canonical_of_decode hx
    obtain ⟨negative, m, e⟩ := v
    obtain rfl | pos := Nat.eq_zero_or_pos m
    · obtain rfl : e = -1074 := canonical.full.resolve_left (by simp)
      exact .inr (.inr (.inl ⟨negative, decode_injective (hx.trans (decode_zero negative).symm)⟩))
    · exact .inr (.inr (.inr ⟨_, rfl, pos⟩))

/-- What is finite is a zero or known by its significand. -/
theorem unpack_of_isFinite {x : Float} (h : x.isFinite = true) :
    (∃ s, x.toModel.unpack = .zero s) ∨ ∃ s m e pos, x.toModel.unpack = .finite s m e pos := by
  change x.toModel.unpack.isFinite = true at h
  cases hu : x.toModel.unpack with
  | notANumber | infinity => rw [hu] at h; cases h
  | zero s => exact .inl ⟨s, rfl⟩
  | finite s m e pos => exact .inr ⟨s, m, e, pos, rfl⟩

/-- What is not finite is no number or an infinity. -/
theorem eq_of_not_isFinite {x : Float} (h : x.isFinite = false) :
    x = 0.0 / 0.0 ∨ x = infinity ∨ x = -infinity := by
  obtain unknown | ⟨negative, rfl⟩ | ⟨negative, rfl⟩ | ⟨v, hx, pos⟩ := kinds x
  · exact .inl unknown
  · cases negative with
    | false => exact .inr (.inl rfl)
    | true => exact .inr (.inr rfl)
  · cases negative <;> cases h
  · change x.toModel.unpack.isFinite = false at h
    rw [unpack_of_decode hx pos] at h
    cases h

theorem eq_of_beq_zero {x : Float} (h : (x == 0.0) = true) :
    ∃ negative : Bool, x = if negative then -0.0 else 0.0 := by
  obtain ⟨s, hs⟩ := beq_zero_iff.mp h
  obtain rfl | ⟨negative, rfl⟩ | zero | ⟨v, hx, pos⟩ := kinds x
  · cases hs
  · cases negative <;> cases hs
  · exact zero
  · rw [unpack_of_decode hx pos] at hs
    cases hs

theorem unpack_neg (x : Float) : (-x).toModel.unpack = x.toModel.unpack.neg := by
  obtain rfl | ⟨negative, rfl⟩ | ⟨negative, rfl⟩ | ⟨v, hx, pos⟩ := kinds x
  · rfl
  · cases negative <;> rfl
  · cases negative <;> rfl
  · rw [unpack_of_decode (decode_neg hx pos) pos, unpack_of_decode hx pos, Finite.unpacked,
      Finite.unpacked, UnpackedFloat.neg, neg_signOf]

theorem lt_zero_iff {x : Float} :
    x < 0.0 ↔ x.toModel.unpack.compare (.zero .positive) = some .lt :=
  lt_iff_compare

theorem zero_lt_iff {x : Float} :
    0.0 < x ↔ (UnpackedFloat.zero .positive).compare x.toModel.unpack = some .lt :=
  lt_iff_compare

/-! ### What is not finite stays so -/

theorem isFinite_of_abs_le {x bound : Float} (h : x.abs ≤ bound) (hb : bound.isFinite = true) :
    x.isFinite = true := by
  rw [le_iff_compare] at h
  obtain rfl | ⟨negative, rfl⟩ | ⟨negative, rfl⟩ | ⟨v, hx, pos⟩ := kinds x
  · cases h
  · have abs : (if negative then -infinity else infinity).abs.toModel.unpack =
        .infinity .positive := by
      cases negative <;> rfl
    rw [abs] at h
    obtain ⟨s, hu⟩ | ⟨s, m, e, pos, hu⟩ := unpack_of_isFinite hb
    · rw [hu] at h; cases h
    · rw [hu] at h; cases h
  · cases negative <;> rfl
  · change x.toModel.unpack.isFinite = true
    rw [unpack_of_decode hx pos]
    rfl

theorem isFinite_nan : (0.0 / 0.0 : Float).isFinite = false := by
  decide

theorem isFinite_of_beq_zero {x : Float} (h : (x == 0.0) = true) : x.isFinite = true := by
  obtain ⟨negative, rfl⟩ := eq_of_beq_zero h
  cases negative <;> rfl

/-! ### Zeros in products, differences and quotients -/

theorem beq_zero_of_pack {u : UnpackedFloat} (h : ∃ s, u = .zero s) :
    (Float.ofModel (.pack u) == 0.0) = true := by
  obtain ⟨s, rfl⟩ := h
  cases s <;> decide

theorem neg_beq_zero {x : Float} (h : (x == 0.0) = true) : (-x == 0.0) = true := by
  obtain ⟨negative, rfl⟩ := eq_of_beq_zero h
  cases negative <;> decide

theorem mul_beq_zero {x y : Float} (hx : x.isFinite = true) (hy : (y == 0.0) = true) :
    (x * y == 0.0) = true := by
  obtain ⟨s, hs⟩ := beq_zero_iff.mp hy
  refine beq_zero_of_pack (u := mul .binary64 x.toModel.unpack y.toModel.unpack) ?_
  rw [hs]
  obtain ⟨s', hu⟩ | ⟨s', m, e, pos, hu⟩ := unpack_of_isFinite hx
  · exact ⟨_, by rw [hu]; rfl⟩
  · exact ⟨_, by rw [hu]; rfl⟩

theorem beq_zero_mul {x y : Float} (hx : (x == 0.0) = true) (hy : y.isFinite = true) :
    (x * y == 0.0) = true := by
  obtain ⟨s, hs⟩ := beq_zero_iff.mp hx
  refine beq_zero_of_pack (u := mul .binary64 x.toModel.unpack y.toModel.unpack) ?_
  rw [hs]
  obtain ⟨s', hu⟩ | ⟨s', m, e, pos, hu⟩ := unpack_of_isFinite hy
  · exact ⟨_, by rw [hu]; rfl⟩
  · exact ⟨_, by rw [hu]; rfl⟩

theorem isFinite_neg {x : Float} (h : x.isFinite = true) : (-x).isFinite = true := by
  change (-x).toModel.unpack.isFinite = true
  rw [unpack_neg]
  obtain ⟨s, hu⟩ | ⟨s, m, e, pos, hu⟩ := unpack_of_isFinite h
  · rw [hu]; rfl
  · rw [hu]; rfl

theorem isFinite_zero_sub {x y : Float} (hx : (x == 0.0) = true) (hy : y.isFinite = true) :
    (x - y).isFinite = true := by
  obtain ⟨negative, rfl⟩ := eq_of_beq_zero hx
  obtain rfl | ⟨negative', rfl⟩ | ⟨negative', rfl⟩ | ⟨v, hv, pos⟩ := kinds y
  · cases hy
  · cases negative' <;> cases hy
  · cases negative <;> cases negative' <;> rfl
  · have sub : (if negative then -0.0 else 0.0) - y = -y := by
      change Float.ofModel (.pack (sub .binary64 _ y.toModel.unpack)) =
        Float.ofModel (.pack y.toModel.unpack.neg)
      rw [unpack_of_decode hv pos]
      cases negative <;> rfl
    rw [sub]
    exact isFinite_neg hy

theorem isFinite_div_zero {x y : Float} (hy : (y == 0.0) = true) : (x / y).isFinite = false := by
  obtain ⟨s, hs⟩ := beq_zero_iff.mp hy
  refine Bool.eq_false_iff.mpr fun h => ?_
  have finite := isFinite_of_pack (u := div .binary64 x.toModel.unpack y.toModel.unpack) h
  rw [hs] at finite
  cases hu : x.toModel.unpack <;> rw [hu] at finite <;> cases finite

/-! ### Signs -/

/-- A number whose sign bit is not set is not below zero. -/
theorem not_lt_zero_of_toBits_lt {x : Float} (h : x.toBits.toNat < 2 ^ 63) : ¬ x < 0.0 := by
  have sign := ofBitVec_unpackSign x
  rw [decide_eq_false (not_le.mpr h)] at sign
  rw [lt_zero_iff]
  change ¬ (UnpackedFloat.unpack .binary64 x.toBits.toBitVec).compare _ = _
  simp only [UnpackedFloat.unpack, sign]
  repeat' split
  all_goals simp [UnpackedFloat.compare, signOf]

theorem toBits_pack_positive_lt {u : UnpackedFloat}
    (h : u = .notANumber ∨ u = .infinity .positive ∨ u = .zero .positive ∨
      ∃ m e pos, u = .finite .positive m e pos) :
    (Float.ofModel (.pack u)).toBits.toNat < 2 ^ 63 := by
  have bound (e : BitVec 11) (m : BitVec 52) :
      (packComponents .binary64 .positive e m).toNat < 2 ^ 63 := by
    have he : e.toNat < 2 ^ 11 := e.isLt
    have hm : m.toNat < 2 ^ 52 := m.isLt
    rw [toNat_packComponents]
    change 0 * 2 ^ 63 + _ + _ < _
    omega
  change (UnpackedFloat.pack .binary64 u).toNat < 2 ^ 63
  obtain rfl | rfl | rfl | ⟨m, e, pos, rfl⟩ := h
  · exact bound _ _
  · exact bound _ _
  · exact bound _ _
  · rw [UnpackedFloat.pack]
    dsimp only
    split
    · exact bound _ _
    · split
      · exact bound _ _
      · exact bound _ _

theorem roundWithAccuracy_positive (m : Nat) (e : Int) (accuracy : Accuracy) :
    roundWithAccuracy .binary64 .positive m e accuracy = .zero .positive ∨
      ∃ m' e' pos, roundWithAccuracy .binary64 .positive m e accuracy =
        .finite .positive m' e' pos := by
  rw [roundWithAccuracy]
  dsimp only
  split
  · exact .inl rfl
  · exact .inr ⟨_, _, Nat.pos_of_ne_zero ‹_›, rfl⟩

theorem not_sqrt_lt_zero (x : Float) : ¬ x.sqrt < 0.0 := by
  obtain rfl | ⟨negative, rfl⟩ | ⟨negative, rfl⟩ | ⟨v, hx, pos⟩ := kinds x
  · decide
  · cases negative <;> decide
  · cases negative <;> decide
  · apply not_lt_zero_of_toBits_lt
    change (Float.ofModel (.pack (sqrt .binary64 x.toModel.unpack))).toBits.toNat < 2 ^ 63
    apply toBits_pack_positive_lt
    rw [unpack_of_decode hx pos, Finite.unpacked]
    cases v.negative with
    | true => exact .inl rfl
    | false => exact .inr (.inr (roundWithAccuracy_positive ..))

/-- An infinity of the sign that two signs give: below zero, if one is that of a zero whose
reciprocal is above. -/
theorem neg_div_zero_lt_iff {x y : Float} (hx : ¬ x < 0.0) (hy : (y == 0.0) = true) :
    -x / y < 0.0 ↔ 0.0 < x ∧ 0.0 < 1.0 / y := by
  obtain ⟨negative, rfl⟩ := eq_of_beq_zero hy
  obtain rfl | ⟨negative', rfl⟩ | ⟨negative', rfl⟩ | ⟨v, hv, pos⟩ := kinds x
  · cases negative <;> decide
  · cases negative' with
    | true => exact absurd (by decide) hx
    | false => cases negative <;> decide
  · cases negative <;> cases negative' <;> decide
  · have unpacked : x.toModel.unpack = .finite (signOf v.negative) v.significand v.exponent pos :=
      unpack_of_decode hv pos
    cases hs : v.negative with
    | true =>
      rw [hs] at unpacked
      rw [lt_zero_iff, unpacked] at hx
      exact absurd rfl hx
    | false =>
      rw [hs] at unpacked
      have above : 0.0 < x := by
        rw [zero_lt_iff, unpacked]
        rfl
      have quotient (y : Float) :
          -x / y = .ofModel (.pack (div .binary64 (.finite .negative v.significand v.exponent pos)
            y.toModel.unpack)) := by
        change Float.ofModel (.pack (div .binary64 (-x).toModel.unpack _)) = _
        rw [unpack_neg, unpacked]
        rfl
      rw [quotient]
      cases negative with
      | true =>
        exact iff_of_false (by decide : ¬ Float.ofModel (.pack (.infinity .positive)) < 0.0)
          fun h => absurd h.2 (by decide)
      | false =>
        exact iff_of_true (by decide : Float.ofModel (.pack (.infinity .negative)) < 0.0)
          ⟨above, by decide⟩

theorem not_zero_lt_reciprocal_neg {y : Float} (hy : (y == 0.0) = true) (h : 0.0 < 1.0 / y) :
    ¬ 0.0 < 1.0 / -y := by
  obtain ⟨negative, rfl⟩ := eq_of_beq_zero hy
  cases negative with
  | true => exact absurd h (by decide)
  | false => decide

theorem neg_sign_div_neg (s t : Sign) : -s / -t = s / t := by
  cases s <;> cases t <;> rfl

theorem neg_div_neg (x y : Float) : -x / -y = x / y := by
  have unpacked : div .binary64 (-x).toModel.unpack (-y).toModel.unpack =
      div .binary64 x.toModel.unpack y.toModel.unpack := by
    rw [unpack_neg, unpack_neg]
    cases x.toModel.unpack <;> cases y.toModel.unpack <;>
      simp only [UnpackedFloat.neg, div, neg_sign_div_neg]
  exact congrArg (fun u => Float.ofModel (.pack u)) unpacked

instance : Scalar.CancelsSigns Float := ⟨neg_div_neg⟩

/-! ### The exponential -/

/-- The exponential of what is not finite. -/
structure ExpLimits (exp : Float → Float) : Prop where
  nan : exp (0.0 / 0.0) = 0.0 / 0.0
  infinity : exp infinity = Binary64.infinity
  negInfinity : exp (-Binary64.infinity) = 0.0

/-- Binary64 arithmetic with a given exponential: with `Float.exp`, the arithmetic that runs. -/
abbrev withExp (exp : Float → Float) : Scalar Float := { instScalarFloat with exp }

section Limits

variable {exp : Float → Float}

theorem isFinite_exp_iff (limits : ExpLimits exp) {x : Float} (h : x.isFinite = false) :
    (exp x).isFinite = true ↔ x < 0.0 := by
  obtain rfl | rfl | rfl := eq_of_not_isFinite h
  · rw [limits.nan]
    decide
  · rw [limits.infinity]
    decide
  · rw [limits.negInfinity]
    decide

theorem exp_beq_zero (limits : ExpLimits exp) {x : Float} (h : x.isFinite = false)
    (below : x < 0.0) : (exp x == 0.0) = true := by
  obtain rfl | rfl | rfl := eq_of_not_isFinite h
  · exact absurd below (by decide)
  · exact absurd below (by decide)
  · rw [limits.negInfinity]
    decide

end Limits

theorem keepsNonFinite_withExp (exp : Float → Float) :
    @Scalar.KeepsNonFinite Float (withExp exp) :=
  @Scalar.KeepsNonFinite.mk Float (withExp exp) isFinite_nan isFinite_of_beq_zero
    (fun h => isFinite_operands_add (isFinite_of_pack h))
    (fun h => isFinite_operands_sub (isFinite_of_pack h))
    (fun h => isFinite_operands_mul (isFinite_of_pack h)) isFinite_of_abs_le

instance : Scalar.KeepsNonFinite Float := keepsNonFinite_withExp Float.exp

/-- The limits are all that has to be known of the exponential. -/
theorem ieee_withExp {exp : Float → Float} (limits : ExpLimits exp) :
    @Scalar.Ieee Float (withExp exp) :=
  @Scalar.Ieee.mk Float (withExp exp) (keepsNonFinite_withExp exp) neg_beq_zero mul_beq_zero
    isFinite_zero_sub isFinite_div_zero (neg_div_zero_lt_iff (not_sqrt_lt_zero _))
    not_zero_lt_reciprocal_neg (isFinite_exp_iff limits) (exp_beq_zero limits)

end LowThrust.Binary64
