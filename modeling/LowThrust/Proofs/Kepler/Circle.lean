import Mathlib
import LowThrust.Proofs.Kepler.Iteration
import LowThrust.Proofs.Kepler.Lagrange

/-!
Circular motion, which the solver finds by its first guess. The radius does not change with the
anomaly, so that the universal Kepler equation is linear and the guess solves it; the first
correction is zero, and the motion turns about the centre at a constant rate.
-/

namespace LowThrust.Kepler

open Universal

theorem stumpff_eq_exactStumpff {ψ : ℝ} (h : 1e-3 ≤ |ψ|) : stumpff ψ = exactStumpff ψ := by
  have far : ¬ Scalar.abs ψ < seriesBound := not_lt.mpr h
  have ne : ψ ≠ 0 := by
    rintro rfl
    norm_num at h
  simp only [stumpff, stumpffC2, stumpffC3, far, if_false, exactStumpff, ne]

namespace Orbit

/-- At right angles to the direction of the centre, and as fast as keeps the distance from it. -/
structure IsCircle (o : Orbit ℝ) : Prop where
  mu_pos : 0 < o.mu
  position_ne_zero : o.start.position ≠ .zero
  perpendicular : o.start.position.dot o.start.velocity = 0
  speed : o.start.velocity.dot o.start.velocity = o.mu / o.radius

/-- The angle per second. -/
noncomputable def meanMotion (o : Orbit ℝ) : ℝ := √(o.mu / o.radius ^ 3)

namespace IsCircle

variable {o : Orbit ℝ} (ho : o.IsCircle)

include ho

theorem radius_pos : 0 < o.radius := Real.sqrt_pos.mpr (Vec3.dot_self_pos ho.position_ne_zero)

theorem isConic : o.IsConic where
  mu_pos := ho.mu_pos
  turns := by
    intro straight
    have area := Vec3.dot_cross o.start.position o.start.velocity
    rw [straight, dot_position, ho.perpendicular, ho.speed, Vec3.zero_real, Vec3.dot_real] at area
    have := mul_pos (pow_pos ho.radius_pos 2) (div_pos ho.mu_pos ho.radius_pos)
    linarith

theorem alpha_eq : o.alpha = 1 / o.radius := by
  have mu := ho.mu_pos.ne'
  rw [alpha, ho.speed, Exact.literal_two]
  field_simp
  ring

theorem alpha_pos : 0 < o.alpha := ho.alpha_eq ▸ one_div_pos.mpr ho.radius_pos

theorem sigma_eq : o.sigma = 0 := by
  rw [sigma, radial, ho.perpendicular, zero_div]

/-! ### One correction -/

theorem initialGuess_eq (dt : ℝ) :
    initialGuess o.radius o.radial o.alpha dt o.mu = √o.mu * dt * o.alpha := by
  rw [initialGuess, if_pos]
  · rfl
  · rw [Exact.literal_zero]
    exact ho.alpha_pos

-- Whatever stands for the Stumpff functions: their terms cancel.
theorem residual_guess (dt : ℝ) (s : Stumpff ℝ) : o.residual dt (√o.mu * dt * o.alpha) s = 0 := by
  have radius := ho.radius_pos.ne'
  rw [residual, psi, ho.sigma_eq, ho.alpha_eq, Exact.literal_one, Exact.sqrt_eq]
  field_simp
  ring

theorem step_guess (dt : ℝ) (s : Stumpff ℝ) : o.step dt (√o.mu * dt * o.alpha) s = 0 := by
  rw [step, ho.residual_guess, laguerreStep, mul_zero, zero_div]

omit ho in
theorem settled_zero {tol : ℝ} (htol : 0 ≤ tol) (previous : Option ℝ) (χ : ℝ) :
    settled tol previous 0 χ = true := by
  have scale : 0 ≤ Scalar.atLeast 1.0 (Scalar.abs χ) := by
    rw [Scalar.atLeast, Exact.literal_one]
    split
    · exact abs_nonneg χ
    · exact zero_le_one
  have small : Scalar.abs (0 : ℝ) ≤ tol * Scalar.atLeast 1.0 (Scalar.abs χ) :=
    abs_zero.trans_le (mul_nonneg htol scale)
  rw [settled, decide_eq_true small, Bool.true_or]

variable {config : KeplerConfig ℝ} (htol : 0 ≤ config.tol) (hlimit : 1 ≤ config.maxIterations)

include htol hlimit

theorem solve_eq (stumpff : ℝ → Stumpff ℝ) (dt : ℝ) :
    o.solve stumpff config dt = .solved (√o.mu * dt * o.alpha) := by
  obtain ⟨n, hn⟩ : ∃ n, config.maxIterations.toNat = n + 1 :=
    Nat.exists_eq_succ_of_ne_zero (by omega)
  have finite (x : ℝ) : Scalar.isFinite x = true := rfl
  rw [solve, ho.initialGuess_eq, hn, iterate]
  simp only [ho.step_guess, sub_zero, finite, settled_zero htol, if_true]

theorem corrections_eq (stumpff : ℝ → Stumpff ℝ) (dt : ℝ) :
    o.corrections stumpff config dt = if dt = 0 then 0 else 1 := by
  obtain ⟨n, hn⟩ : ∃ n, config.maxIterations.toNat = n + 1 :=
    Nat.exists_eq_succ_of_ne_zero (by omega)
  have finite (x : ℝ) : Scalar.isFinite x = true := rfl
  have regular : o.isRegular dt = true := rfl
  have mu : o.mu > 0.0 := by
    rw [Exact.literal_zero]
    exact ho.mu_pos
  rw [corrections, if_pos mu, ho.initialGuess_eq, hn, Kepler.corrections]
  simp only [ho.step_guess, sub_zero, finite, settled_zero htol, if_true, regular, Exact.beq_iff,
    Exact.literal_zero]

omit htol hlimit

/-! ### The rotation -/

theorem meanMotion_eq : o.meanMotion = √o.mu * √o.alpha ^ 3 := by
  have radius : 1 / o.radius = √o.alpha ^ 2 := by rw [Real.sq_sqrt ho.alpha_pos.le, ho.alpha_eq]
  have square : o.mu / o.radius ^ 3 = (√o.mu * √o.alpha ^ 3) ^ 2 := by
    calc
      o.mu / o.radius ^ 3 = o.mu * (1 / o.radius) ^ 3 := by ring
      _ = √o.mu ^ 2 * (√o.alpha ^ 2) ^ 3 := by rw [radius, Real.sq_sqrt ho.mu_pos.le]
      _ = (√o.mu * √o.alpha ^ 3) ^ 2 := by ring
  rw [meanMotion, square, Real.sqrt_sq (by positivity)]

theorem angle_eq (dt : ℝ) : √o.alpha * (√o.mu * dt * o.alpha) = o.meanMotion * dt := by
  have alpha := Real.sq_sqrt ho.alpha_pos.le
  rw [ho.meanMotion_eq]
  linear_combination (-(√o.alpha * √o.mu * dt)) * alpha

theorem psi_guess (dt : ℝ) : o.psi (√o.mu * dt * o.alpha) = (o.meanMotion * dt) ^ 2 := by
  rw [← ho.angle_eq, mul_pow, Real.sq_sqrt ho.alpha_pos.le, psi]
  ring

theorem conic_guess (dt : ℝ) :
    let θ := o.meanMotion * dt
    o.conic (√o.mu * dt * o.alpha) =
      ⟨Real.cos θ * o.start.position + (Real.sin θ / o.meanMotion) * o.start.velocity,
        -(o.meanMotion * Real.sin θ) * o.start.position + Real.cos θ * o.start.velocity⟩ := by
  intro θ
  have angle : √o.alpha * (√o.mu * dt * o.alpha) = θ := ho.angle_eq dt
  have w : √o.alpha ≠ 0 := (Real.sqrt_pos.mpr ho.alpha_pos).ne'
  have mu : √o.mu ≠ 0 := (Real.sqrt_pos.mpr ho.mu_pos).ne'
  have alpha : o.alpha = √o.alpha ^ 2 := (Real.sq_sqrt ho.alpha_pos.le).symm
  have radius : o.radius = 1 / √o.alpha ^ 2 := by rw [← alpha, ho.alpha_eq, one_div_one_div]
  have u2 : u2 o.alpha (√o.mu * dt * o.alpha) = (1 - Real.cos θ) / √o.alpha ^ 2 := by
    rw [← angle, ← u2_ellipse w, ← alpha]
  have u1 : u1 o.alpha (√o.mu * dt * o.alpha) = Real.sin θ / √o.alpha := by
    rw [← angle, ← u1_ellipse w, ← alpha]
  have u0 : u0 o.alpha (√o.mu * dt * o.alpha) = Real.cos θ := by
    rw [← angle, ← u0_ellipse w, ← alpha]
  have distance : o.distance (√o.mu * dt * o.alpha) = o.radius := by
    rw [distance_eq, ho.sigma_eq, u0, u1, u2, radius]
    ring
  rw [conic, f, g, fRate, gRate, distance, u1, u2, ho.sigma_eq, ho.meanMotion_eq, radius]
  congr 3
  · field_simp
    ring
  · field_simp
    ring
  · field_simp
  · field_simp
    ring

/-- On a circle the first correction of the solver is the last, at a root of the universal Kepler
equation, and so no coast is given up, whatever the time, the tolerance and the limit. A coast
through an angle for which the Stumpff functions are not summed as series is the exact rotation. -/
theorem propagate_rotates {config : KeplerConfig ℝ} (htol : 0 ≤ config.tol)
    (hlimit : 1 ≤ config.maxIterations) (dt : ℝ) :
    let n := o.meanMotion
    let θ := n * dt
    let coasted := propagate config o.mu o.start dt
    (∃ χ, o.solve stumpff config dt = .solved χ ∧ o.residual dt χ (stumpff (o.psi χ)) = 0) ∧
      (o.corrections stumpff config dt = if dt = 0 then 0 else 1) ∧
      (∃ m, coasted = .ok m) ∧
      (1e-3 ≤ θ ^ 2 → coasted =
        .ok ⟨Real.cos θ * o.start.position + (Real.sin θ / n) * o.start.velocity,
          -(n * Real.sin θ) * o.start.position + Real.cos θ * o.start.velocity⟩) := by
  intro n θ coasted
  have solved := ho.solve_eq htol hlimit stumpff dt
  have root := ho.residual_guess dt
  have regular : o.isRegular dt = true := rfl
  have mu : o.mu > 0.0 := by
    rw [Exact.literal_zero]
    exact ho.mu_pos
  have coast : coasted = if dt = 0 then .ok o.start
      else .ok (o.advance dt (√o.mu * dt * o.alpha) (stumpff (o.psi (√o.mu * dt * o.alpha)))) := by
    change o.coast stumpff config dt = _
    rw [Orbit.coast, if_pos mu, regular, solved]
    simp only [Exact.beq_iff, Exact.literal_zero, if_true]
  refine ⟨⟨_, solved, root _⟩, ho.corrections_eq htol hlimit stumpff dt, ?_, fun far => ?_⟩
  · rw [coast]
    split <;> exact ⟨_, rfl⟩
  · have moves : dt ≠ 0 := by
      rintro rfl
      norm_num [θ] at far
    have closed : stumpff (o.psi (√o.mu * dt * o.alpha)) =
        exactStumpff (o.psi (√o.mu * dt * o.alpha)) := by
      apply stumpff_eq_exactStumpff
      rw [ho.psi_guess, abs_sq]
      exact far
    rw [coast, if_neg moves, closed, ← ho.conic_guess]
    exact congrArg Except.ok (ho.isConic.motionAt_eq (root _))

end IsCircle

/-! ### Half a turn, backward -/

noncomputable def circle : Orbit ℝ := ⟨⟨⟨4.0, 0, 0⟩, ⟨0, 0.5, 0⟩⟩, 1⟩

theorem radius_circle : circle.radius = 4 := by
  have square : circle.start.position.dot circle.start.position = 4 ^ 2 := by
    norm_num [circle, Vec3.dot_real]
  rw [radius, Vec3.norm_real, square, Real.sqrt_sq (by norm_num)]

theorem isCircle_circle : circle.IsCircle where
  mu_pos := one_pos
  position_ne_zero := by norm_num [circle]
  perpendicular := by norm_num [circle, Vec3.dot_real]
  speed := by
    rw [radius_circle]
    norm_num [circle, Vec3.dot_real]

theorem meanMotion_circle : circle.meanMotion = 1 / 8 := by
  have square : circle.mu / circle.radius ^ 3 = (1 / 8) ^ 2 := by
    rw [radius_circle]
    norm_num [circle]
  rw [meanMotion, square, Real.sqrt_sq (by norm_num)]

/-- With a tolerance of zero, a single correction leads to the opposite point. -/
theorem propagate_halfTurn :
    circle.IsCircle ∧ circle.corrections stumpff ⟨0, 1⟩ (-(8 * Real.pi)) = 1 ∧
      propagate ⟨0, 1⟩ 1 circle.start (-(8 * Real.pi)) = .ok ⟨⟨-4, 0, 0⟩, ⟨0, -(1 / 2), 0⟩⟩ := by
  have tolerated : 0 ≤ (⟨0, 1⟩ : KeplerConfig ℝ).tol := le_rfl
  obtain ⟨-, once, -, turned⟩ :=
    isCircle_circle.propagate_rotates tolerated (by decide) (-(8 * Real.pi))
  have angle : circle.meanMotion * -(8 * Real.pi) = -Real.pi := by
    rw [meanMotion_circle]
    ring
  have far : 1e-3 ≤ (circle.meanMotion * -(8 * Real.pi)) ^ 2 := by
    rw [angle]
    nlinarith [Real.pi_gt_three]
  refine ⟨isCircle_circle, once.trans (if_neg ?_), (turned far).trans ?_⟩
  · exact neg_ne_zero.mpr (by positivity)
  · rw [angle, Real.cos_neg, Real.sin_neg, Real.cos_pi, Real.sin_pi]
    norm_num [circle, Vec3.smul_real, Vec3.add_real]

end Orbit

end LowThrust.Kepler
