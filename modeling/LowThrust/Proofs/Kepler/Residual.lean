import Mathlib
import LowThrust.Kepler.Solver
import LowThrust.Proofs.Kepler.Composition

/-!
The universal Kepler equation as the solver meets it. What the solver takes for the two derivatives
of the residual are its derivatives, and the first of them is positive: no division of a correction,
or of the step at a root, is one by zero.
-/

namespace LowThrust.Kepler

/-- What a correction divides by. -/
def laguerreDivisor {α : Type} [Scalar α] (residual slope curvature : α) : α :=
  slope + Scalar.sqrt (Scalar.abs (16.0 * slope * slope - 20.0 * residual * curvature))

theorem laguerreStep_eq {α : Type} [Scalar α] (residual slope curvature : α) :
    laguerreStep residual slope curvature =
      5.0 * residual / laguerreDivisor residual slope curvature := rfl

theorem laguerreDivisor_pos {slope : ℝ} (h : 0 < slope) (residual curvature : ℝ) :
    0 < laguerreDivisor residual slope curvature :=
  add_pos_of_pos_of_nonneg h (Real.sqrt_nonneg _)

namespace Orbit

open Universal

namespace IsConic

variable {o : Orbit ℝ} (ho : o.IsConic)

include ho

theorem residual_eq_elapsed (dt χ : ℝ) :
    o.residual dt χ (exactStumpff (o.psi χ)) = √o.mu * (o.elapsed χ - dt) := by
  rw [residual_eq, elapsed, mul_sub, mul_div_cancel₀ _ ho.sqrt_mu_pos.ne']

theorem hasDerivAt_residual (dt χ : ℝ) :
    HasDerivAt (fun χ => o.residual dt χ (exactStumpff (o.psi χ))) (o.distance χ) χ := by
  rw [funext (ho.residual_eq_elapsed dt)]
  refine (((o.hasDerivAt_elapsed χ).sub_const dt).const_mul √o.mu).congr_deriv ?_
  exact mul_div_cancel₀ _ ho.sqrt_mu_pos.ne'

theorem residual_strictMono (dt : ℝ) :
    StrictMono fun χ => o.residual dt χ (exactStumpff (o.psi χ)) :=
  strictMono_of_hasDerivAt_pos (ho.hasDerivAt_residual dt) ho.distance_pos

/-- The norm of the position that is reached at a root is the distance there. -/
theorem norm_advance {dt χ : ℝ} (h : o.IsAnomaly dt χ) :
    (o.advance dt χ (exactStumpff (o.psi χ))).position.norm = o.distance χ := by
  have reached : o.advance dt χ (exactStumpff (o.psi χ)) = o.conic χ := ho.motionAt_eq h
  rw [reached, ho.norm_conic]

end IsConic

/-- The residual grows with the anomaly, at a rate that is the slope, and the slope changes by the
curvature. So there is one root at most, and neither the divisor of a correction nor the distance at
a root is zero. -/
theorem IsConic.residual_increases {o : Orbit ℝ} (ho : o.IsConic) (dt : ℝ) :
    let s χ := exactStumpff (o.psi χ)
    (∀ χ, HasDerivAt (fun χ => o.residual dt χ (s χ)) (o.slope χ (s χ)) χ ∧
      HasDerivAt (fun χ => o.slope χ (s χ)) (o.curvature χ (s χ)) χ ∧ 0 < o.slope χ (s χ)) ∧
      StrictMono (fun χ => o.residual dt χ (s χ)) ∧
      (∀ χ χ', o.residual dt χ (s χ) = 0 → o.residual dt χ' (s χ') = 0 → χ = χ') ∧
      (∀ χ, let d := laguerreDivisor (o.residual dt χ (s χ)) (o.slope χ (s χ)) (o.curvature χ (s χ))
        d ≠ 0 ∧ o.step dt χ (s χ) = 5.0 * o.residual dt χ (s χ) / d) ∧
      ∀ χ, o.residual dt χ (s χ) = 0 → (o.advance dt χ (s χ)).position.norm ≠ 0 := by
  intro s
  have grows := ho.residual_strictMono dt
  refine ⟨fun χ => ⟨ho.hasDerivAt_residual dt χ, o.hasDerivAt_distance χ, ho.distance_pos χ⟩,
    grows, fun χ χ' root root' => grows.injective (root.trans root'.symm),
    fun χ => ⟨?_, laguerreStep_eq _ _ _⟩, fun χ root => ?_⟩
  · exact (laguerreDivisor_pos (ho.distance_pos χ) _ _).ne'
  · rw [ho.norm_advance root]
    exact (ho.distance_pos χ).ne'

/-! ### The parabola -/

/-- After 5/3 the parabola is at the anomaly of one and nowhere else. -/
theorem residual_increases_parabola :
    let s χ := exactStumpff (parabola.psi χ)
    HasDerivAt (fun χ => parabola.residual (5 / 3) χ (s χ)) (5 / 2) 1 ∧
      HasDerivAt (fun χ => parabola.slope χ (s χ)) 2 1 ∧
      (∀ χ, parabola.residual (5 / 3) χ (s χ) = 0 ↔ χ = 1) ∧
      (parabola.advance (5 / 3) 1 (s 1)).position.norm ≠ 0 := by
  intro s
  obtain ⟨derivatives, -, unique, -, apart⟩ := isConic_parabola.residual_increases (5 / 3)
  obtain ⟨slope, curvature, -⟩ := derivatives 1
  have root : parabola.residual (5 / 3) 1 (s 1) = 0 := by
    refine isConic_parabola.isAnomaly_iff.mpr ?_
    rw [elapsed_parabola]
    norm_num
  have distance : parabola.slope 1 (s 1) = 5 / 2 := by
    refine (parabola.distance_eq 1).trans ?_
    rw [alpha_parabola, sigma_parabola, radius_parabola, u0_parabola, u1_parabola, u2_parabola]
    norm_num
  have rate : parabola.curvature 1 (s 1) = 2 := by
    refine (parabola.distanceRate_eq 1).trans ?_
    rw [alpha_parabola, sigma_parabola, radius_parabola, u0_parabola, u1_parabola]
    norm_num
  rw [distance] at slope
  rw [rate] at curvature
  refine ⟨slope, curvature, fun χ => ⟨fun also => unique χ 1 also root, ?_⟩, apart 1 root⟩
  rintro rfl
  exact root

end Orbit

end LowThrust.Kepler
