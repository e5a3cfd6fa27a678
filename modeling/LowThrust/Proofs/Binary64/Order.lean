import Mathlib
import LowThrust.Binary64.Scalar
import LowThrust.Proofs.Finiteness

/-!
The order of binary64 numbers. Two numbers compare, as their ranks do, unless one of them is not a
number.
-/

namespace LowThrust.Binary64

open Float.Model (UnpackedFloat)

theorem compare_neg (a b : ℤ) : compare (-a) (-b) = (compare a b).swap := by
  rcases lt_trichotomy a b with lt | rfl | gt
  · rw [compare_lt_iff_lt.mpr lt, compare_gt_iff_gt.mpr (neg_lt_neg lt)]
    rfl
  · simp
  · rw [compare_gt_iff_gt.mpr gt, compare_lt_iff_lt.mpr (neg_lt_neg gt)]
    rfl

theorem compare_cast (a b : ℕ) : compare (a : ℤ) (b : ℤ) = compare a b := by
  rcases lt_trichotomy a b with lt | rfl | gt
  · rw [compare_lt_iff_lt.mpr lt, compare_lt_iff_lt.mpr (Int.ofNat_lt.mpr lt)]
  · simp
  · rw [compare_gt_iff_gt.mpr gt, compare_gt_iff_gt.mpr (Int.ofNat_lt.mpr gt)]

/-- The kind of a number, then its exponent, then its significand, both reversed below zero. -/
def place : UnpackedFloat → ℤ ×ₗ ℤ ×ₗ ℤ
  | .infinity .negative => toLex (-2, toLex (0, 0))
  | .finite .negative m e _ => toLex (-1, toLex (-e, -m))
  | .zero _ | .notANumber => toLex (0, toLex (0, 0))
  | .finite .positive m e _ => toLex (1, toLex (e, m))
  | .infinity .positive => toLex (2, toLex (0, 0))

theorem compare_eq {a b : UnpackedFloat} (ha : a.isNaN = false) (hb : b.isNaN = false) :
    a.compare b = some (compare (place a) (place b)) := by
  cases a with
  | notANumber => cases ha
  | infinity s =>
    cases b with
    | notANumber => cases hb
    | infinity t => cases s <;> cases t <;> rfl
    | zero => cases s <;> rfl
    | finite t => cases s <;> cases t <;> rfl
  | zero s =>
    cases b with
    | notANumber => cases hb
    | infinity t => cases t <;> rfl
    | zero => rfl
    | finite t => cases t <;> rfl
  | finite s m e =>
    cases b with
    | notANumber => cases hb
    | infinity t => cases s <;> cases t <;> rfl
    | zero => cases s <;> rfl
    | finite t n d =>
      have lex (k a b c d : ℤ) : compare (toLex (k, toLex (a, b))) (toLex (k, toLex (c, d))) =
          (compare a c).then (compare b d) := by
        simp [Prod.Lex.compare_def, compareLex, compareOn]
      cases s with
      | negative =>
        cases t with
        | negative =>
          simp only [UnpackedFloat.compare, place, lex, compare_neg, compare_cast,
            Ordering.swap_then]
        | positive => rfl
      | positive =>
        cases t with
        | negative => rfl
        | positive => simp only [UnpackedFloat.compare, place, lex, compare_cast]

theorem any_compare_iff {a b : UnpackedFloat} {p : Ordering → Bool} :
    (a.compare b).any p = true ↔
      a.isNaN = false ∧ b.isNaN = false ∧ p (compare (place a) (place b)) = true := by
  cases ha : a.isNaN with
  | true => cases a <;> simp [UnpackedFloat.compare, UnpackedFloat.isNaN] at ha ⊢
  | false =>
    cases hb : b.isNaN with
    | true =>
      cases b with
      | notANumber => cases a <;> simp [UnpackedFloat.compare]
      | infinity | zero | finite => cases hb
    | false => simp [compare_eq ha hb]

def rank (x : Float) : ℤ ×ₗ ℤ ×ₗ ℤ := place x.toModel.unpack

variable {x y : Float}

theorem lt_iff_compare : x < y ↔ x.toModel.unpack.compare y.toModel.unpack = some .lt := by
  change decide ((x.toModel.unpack.compare y.toModel.unpack == some .lt) = true) = true ↔ _
  simp

theorem le_iff_compare :
    x ≤ y ↔ (x.toModel.unpack.compare y.toModel.unpack).any (·.isLE) = true := by
  change decide ((x.toModel.unpack.compare y.toModel.unpack).any (·.isLE) = true) = true ↔ _
  rw [decide_eq_true_iff]

theorem beq_iff_compare :
    (x == y) = true ↔ x.toModel.unpack.compare y.toModel.unpack = some .eq := by
  change (x.toModel.unpack.compare y.toModel.unpack == some .eq) = true ↔ _
  rw [beq_iff_eq]

theorem compare_eq_some_iff {o : Ordering} :
    x.toModel.unpack.compare y.toModel.unpack = some o ↔
      x.isNaN = false ∧ y.isNaN = false ∧ compare (rank x) (rank y) = o := by
  have holds (c : Option Ordering) : c = some o ↔ c.any (· == o) = true := by
    cases c <;> simp
  rw [holds, any_compare_iff, beq_iff_eq]
  rfl

theorem lt_iff_rank : x < y ↔ x.isNaN = false ∧ y.isNaN = false ∧ rank x < rank y := by
  rw [lt_iff_compare, compare_eq_some_iff, compare_lt_iff_lt]

theorem le_iff_rank : x ≤ y ↔ x.isNaN = false ∧ y.isNaN = false ∧ rank x ≤ rank y := by
  have ordered : (compare (rank x) (rank y)).isLE = true ↔ rank x ≤ rank y := by
    rw [← compare_le_iff_le]
    cases compare (rank x) (rank y) <;> simp
  rw [le_iff_compare, any_compare_iff, ← ordered]
  rfl

theorem beq_iff_rank : (x == y) = true ↔ x.isNaN = false ∧ y.isNaN = false ∧ rank x = rank y := by
  rw [beq_iff_compare, compare_eq_some_iff, compare_eq_iff_eq]

/-- What is not at most `x` is above `x`, if both are numbers. -/
theorem lt_iff_of_not_le {x y : Float} (h : ¬ y ≤ x) : x < y ↔ ¬ x.isNaN ∧ ¬ y.isNaN := by
  rw [le_iff_rank] at h
  rw [lt_iff_rank, Bool.not_eq_true, Bool.not_eq_true]
  constructor
  · rintro ⟨hx, hy, -⟩
    exact ⟨hx, hy⟩
  · rintro ⟨hx, hy⟩
    exact ⟨hx, hy, not_le.mp fun le => h ⟨hy, hx, le⟩⟩

theorem isNaN_of_isFinite (h : x.isFinite = true) : x.isNaN = false := by
  change x.toModel.unpack.isFinite = true at h
  change x.toModel.unpack.isNaN = false
  cases hx : x.toModel.unpack with
  | notANumber => rw [hx] at h; cases h
  | infinity | zero | finite => rfl

instance : Scalar.OrdersFinite Float where
  lt_asymm above below := (lt_iff_rank.mp above).2.2.asymm (lt_iff_rank.mp below).2.2
  lt_or_lt := by
    intro x y z finite lt
    obtain ⟨hx, hz, lt⟩ := lt_iff_rank.mp lt
    have hy := isNaN_of_isFinite finite
    rcases lt_or_ge (rank x) (rank y) with above | below
    · exact .inl (lt_iff_rank.mpr ⟨hx, hy, above⟩)
    · exact .inr (lt_iff_rank.mpr ⟨hy, hz, below.trans_lt lt⟩)
  lt_or_beq_or_lt := by
    intro x y finite finite'
    have hx := isNaN_of_isFinite finite
    have hy := isNaN_of_isFinite finite'
    rcases lt_trichotomy (rank x) (rank y) with below | same | above
    · exact .inl (lt_iff_rank.mpr ⟨hx, hy, below⟩)
    · exact .inr (.inl (beq_iff_rank.mpr ⟨hx, hy, same⟩))
    · exact .inr (.inr (lt_iff_rank.mpr ⟨hy, hx, above⟩))

end LowThrust.Binary64
