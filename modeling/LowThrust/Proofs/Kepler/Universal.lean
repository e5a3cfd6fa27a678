import Mathlib
import LowThrust.Kepler.Stumpff
import LowThrust.Proofs.Exact.Real

/-!
The universal functions of a conic. They are the Stumpff functions times powers of the anomaly; on
an ellipse they are trigonometric, on a hyperbola hyperbolic, and on a parabola polynomials. Their
derivatives and their addition laws are the same on all three.
-/

namespace LowThrust.Kepler

/-- The closed forms of the Stumpff functions, continued to zero by their series. -/
noncomputable def exactStumpff (ψ : ℝ) : Stumpff ℝ :=
  if ψ = 0 then ⟨seriesC2 ψ, seriesC3 ψ⟩ else ⟨closedC2 ψ, closedC3 ψ⟩

theorem exactStumpff_zero : exactStumpff 0 = ⟨1 / 2, 1 / 6⟩ := by
  rw [exactStumpff, if_pos rfl, seriesC2, seriesC3]
  norm_num

theorem exactStumpff_sq {x : ℝ} (h : x ≠ 0) :
    exactStumpff (x ^ 2) = ⟨(1 - Real.cos x) / x ^ 2, (x - Real.sin x) / x ^ 3⟩ := by
  have pos : 0 < x ^ 2 := sq_pos_of_ne_zero h
  simp only [exactStumpff, closedC2, closedC3, pos.ne', if_false, gt_iff_lt, Exact.literal_zero, pos,
    if_true, Exact.literal_one, Exact.sqrt_eq, Exact.cos_eq, Exact.sin_eq, Exact.cube_eq,
    Real.sqrt_sq_eq_abs, Real.cos_abs]
  rcases abs_choice x with eq | eq
  · rw [eq]
  · rw [eq, Real.sin_neg]
    congr 1
    field_simp
    ring

theorem exactStumpff_neg_sq {x : ℝ} (h : x ≠ 0) :
    exactStumpff (-x ^ 2) = ⟨(Real.cosh x - 1) / x ^ 2, (Real.sinh x - x) / x ^ 3⟩ := by
  have neg : -x ^ 2 < 0 := neg_neg_of_pos (sq_pos_of_ne_zero h)
  simp only [exactStumpff, closedC2, closedC3, neg.ne, if_false, gt_iff_lt, Exact.literal_zero,
    neg.not_gt, Exact.literal_one, neg_neg, Exact.sqrt_eq, Exact.cosh_eq, Exact.sinh_eq,
    Exact.cube_eq, Real.sqrt_sq_eq_abs, Real.cosh_abs]
  rcases abs_choice x with eq | eq
  · rw [eq]
  · rw [eq, Real.sinh_neg]
    congr 1
    field_simp
    ring

/-! ### The universal functions

Those of order two and three come from the Stumpff functions, those of order zero and one from
these.
-/

namespace Universal

noncomputable def u2 (α χ : ℝ) : ℝ := χ * χ * (exactStumpff (χ * χ * α)).c2

noncomputable def u3 (α χ : ℝ) : ℝ := χ * χ * χ * (exactStumpff (χ * χ * α)).c3

noncomputable def u0 (α χ : ℝ) : ℝ := 1 - α * u2 α χ

noncomputable def u1 (α χ : ℝ) : ℝ := χ - α * u3 α χ

@[simp] theorem u2_zero (α : ℝ) : u2 α 0 = 0 := by simp [u2]

@[simp] theorem u3_zero (α : ℝ) : u3 α 0 = 0 := by simp [u3]

@[simp] theorem u0_zero (α : ℝ) : u0 α 0 = 1 := by simp [u0]

@[simp] theorem u1_zero (α : ℝ) : u1 α 0 = 0 := by simp [u1]

/-! Closed forms on an ellipse, a hyperbola and a parabola. -/

section ClosedForms

variable {w : ℝ} (hw : w ≠ 0) (χ : ℝ)

include hw

theorem u2_ellipse : u2 (w ^ 2) χ = (1 - Real.cos (w * χ)) / w ^ 2 := by
  rcases eq_or_ne χ 0 with rfl | hχ
  · simp
  rw [u2, show χ * χ * w ^ 2 = (w * χ) ^ 2 by ring, exactStumpff_sq (mul_ne_zero hw hχ)]
  field_simp

theorem u3_ellipse : u3 (w ^ 2) χ = (w * χ - Real.sin (w * χ)) / w ^ 3 := by
  rcases eq_or_ne χ 0 with rfl | hχ
  · simp
  rw [u3, show χ * χ * w ^ 2 = (w * χ) ^ 2 by ring, exactStumpff_sq (mul_ne_zero hw hχ)]
  field_simp

theorem u0_ellipse : u0 (w ^ 2) χ = Real.cos (w * χ) := by
  rw [u0, u2_ellipse hw]
  field_simp
  ring

theorem u1_ellipse : u1 (w ^ 2) χ = Real.sin (w * χ) / w := by
  rw [u1, u3_ellipse hw]
  field_simp
  ring

theorem u2_hyperbola : u2 (-w ^ 2) χ = (Real.cosh (w * χ) - 1) / w ^ 2 := by
  rcases eq_or_ne χ 0 with rfl | hχ
  · simp
  rw [u2, show χ * χ * -w ^ 2 = -(w * χ) ^ 2 by ring, exactStumpff_neg_sq (mul_ne_zero hw hχ)]
  field_simp

theorem u3_hyperbola : u3 (-w ^ 2) χ = (Real.sinh (w * χ) - w * χ) / w ^ 3 := by
  rcases eq_or_ne χ 0 with rfl | hχ
  · simp
  rw [u3, show χ * χ * -w ^ 2 = -(w * χ) ^ 2 by ring, exactStumpff_neg_sq (mul_ne_zero hw hχ)]
  field_simp

theorem u0_hyperbola : u0 (-w ^ 2) χ = Real.cosh (w * χ) := by
  rw [u0, u2_hyperbola hw]
  field_simp
  ring

theorem u1_hyperbola : u1 (-w ^ 2) χ = Real.sinh (w * χ) / w := by
  rw [u1, u3_hyperbola hw]
  field_simp
  ring

end ClosedForms

theorem u2_parabola (χ : ℝ) : u2 0 χ = χ ^ 2 / 2 := by
  rw [u2, mul_zero, exactStumpff_zero]
  ring

theorem u3_parabola (χ : ℝ) : u3 0 χ = χ ^ 3 / 6 := by
  rw [u3, mul_zero, exactStumpff_zero]
  ring

theorem u0_parabola (χ : ℝ) : u0 0 χ = 1 := by simp [u0]

theorem u1_parabola (χ : ℝ) : u1 0 χ = χ := by simp [u1]

/-- Every conic is an ellipse, a hyperbola or a parabola. -/
theorem conic_cases {p : ℝ → Prop} (ellipse : ∀ w, w ≠ 0 → p (w ^ 2))
    (hyperbola : ∀ w, w ≠ 0 → p (-w ^ 2)) (parabola : p 0) (α : ℝ) : p α := by
  rcases lt_trichotomy α 0 with neg | rfl | pos
  · have := hyperbola √(-α) (Real.sqrt_pos.mpr (neg_pos.mpr neg)).ne'
    rwa [Real.sq_sqrt (neg_pos.mpr neg).le, neg_neg] at this
  · exact parabola
  · have := ellipse √α (Real.sqrt_pos.mpr pos).ne'
    rwa [Real.sq_sqrt pos.le] at this

/-! ### Laws of all conics -/

theorem sq_u1 (α χ : ℝ) : u1 α χ ^ 2 = u2 α χ * (1 + u0 α χ) := by
  induction α using conic_cases with
  | ellipse w hw =>
    rw [u0_ellipse hw, u1_ellipse hw, u2_ellipse hw]
    field_simp
    linear_combination Real.sin_sq_add_cos_sq (w * χ)
  | hyperbola w hw =>
    rw [u0_hyperbola hw, u1_hyperbola hw, u2_hyperbola hw]
    field_simp
    linear_combination -Real.cosh_sq_sub_sinh_sq (w * χ)
  | parabola =>
    rw [u0_parabola, u1_parabola, u2_parabola]
    ring

theorem u0_add (α a b : ℝ) : u0 α (a + b) = u0 α a * u0 α b - α * (u1 α a * u1 α b) := by
  induction α using conic_cases with
  | ellipse w hw =>
    simp only [u0_ellipse hw, u1_ellipse hw, mul_add, Real.cos_add]
    field_simp
  | hyperbola w hw =>
    simp only [u0_hyperbola hw, u1_hyperbola hw, mul_add, Real.cosh_add]
    field_simp
    ring
  | parabola => simp [u0_parabola]

theorem u1_add (α a b : ℝ) : u1 α (a + b) = u1 α a * u0 α b + u0 α a * u1 α b := by
  induction α using conic_cases with
  | ellipse w hw =>
    simp only [u0_ellipse hw, u1_ellipse hw, mul_add, Real.sin_add]
    field_simp
  | hyperbola w hw =>
    simp only [u0_hyperbola hw, u1_hyperbola hw, mul_add, Real.sinh_add]
    field_simp
  | parabola => simp [u0_parabola, u1_parabola]

/-- Of a parabola the laws of higher order do not follow from those of lower order. -/
theorem u2_add (α a b : ℝ) : u2 α (a + b) = u2 α a * u0 α b + u2 α b + u1 α a * u1 α b := by
  rcases eq_or_ne α 0 with rfl | hα
  · simp only [u0_parabola, u1_parabola, u2_parabola]
    ring
  · apply mul_left_cancel₀ hα
    have whole := u0_add α a b
    simp only [u0] at whole ⊢
    linear_combination -whole

theorem u3_add (α a b : ℝ) :
    u3 α (a + b) = u3 α a + u3 α b + u1 α a * u2 α b + u2 α a * u1 α b := by
  rcases eq_or_ne α 0 with rfl | hα
  · simp only [u1_parabola, u2_parabola, u3_parabola]
    ring
  · apply mul_left_cancel₀ hα
    have whole := u1_add α a b
    simp only [u0, u1] at whole ⊢
    linear_combination -whole

theorem hasDerivAt_u2 (α χ : ℝ) : HasDerivAt (u2 α) (u1 α χ) χ := by
  induction α using conic_cases with
  | ellipse w hw =>
    have inner : HasDerivAt (fun χ => w * χ) w χ := hasDerivAt_const_mul w
    rw [funext (u2_ellipse hw), u1_ellipse hw]
    refine ((inner.cos.const_sub 1).div_const _).congr_deriv ?_
    field_simp
  | hyperbola w hw =>
    have inner : HasDerivAt (fun χ => w * χ) w χ := hasDerivAt_const_mul w
    rw [funext (u2_hyperbola hw), u1_hyperbola hw]
    refine ((inner.cosh.sub_const 1).div_const _).congr_deriv ?_
    field_simp
  | parabola =>
    rw [funext u2_parabola, u1_parabola]
    refine ((hasDerivAt_pow 2 χ).div_const 2).congr_deriv ?_
    simp

theorem hasDerivAt_u3 (α χ : ℝ) : HasDerivAt (u3 α) (u2 α χ) χ := by
  induction α using conic_cases with
  | ellipse w hw =>
    have inner : HasDerivAt (fun χ => w * χ) w χ := hasDerivAt_const_mul w
    rw [funext (u3_ellipse hw), u2_ellipse hw]
    refine ((inner.sub inner.sin).div_const _).congr_deriv ?_
    field_simp
  | hyperbola w hw =>
    have inner : HasDerivAt (fun χ => w * χ) w χ := hasDerivAt_const_mul w
    rw [funext (u3_hyperbola hw), u2_hyperbola hw]
    refine ((inner.sinh.sub inner).div_const _).congr_deriv ?_
    field_simp
  | parabola =>
    rw [funext u3_parabola, u2_parabola]
    refine ((hasDerivAt_pow 3 χ).div_const 6).congr_deriv ?_
    norm_num
    ring

theorem hasDerivAt_u0 (α χ : ℝ) : HasDerivAt (u0 α) (-(α * u1 α χ)) χ :=
  ((hasDerivAt_u2 α χ).const_mul α).const_sub 1

theorem hasDerivAt_u1 (α χ : ℝ) : HasDerivAt (u1 α) (u0 α χ) χ :=
  (hasDerivAt_id χ).sub ((hasDerivAt_u3 α χ).const_mul α)

end Universal

end LowThrust.Kepler
