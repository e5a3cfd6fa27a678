import Mathlib
import LowThrust.Proofs.Kepler.Anomaly

/-!
The motion at an anomaly as a combination of the motion at the start. Lagrange's coefficients are
functions of the anomaly alone; they keep the energy and the angular momentum.
-/

namespace LowThrust.Kepler.Orbit

open Universal

variable (o : Orbit ℝ)

/-! Lagrange's coefficients, of the position and of the velocity at the start. -/

noncomputable def f (χ : ℝ) : ℝ := 1 - u2 o.alpha χ / o.radius

noncomputable def g (χ : ℝ) : ℝ := (o.radius * u1 o.alpha χ + o.sigma * u2 o.alpha χ) / √o.mu

noncomputable def fRate (χ : ℝ) : ℝ := -(√o.mu * u1 o.alpha χ) / (o.distance χ * o.radius)

noncomputable def gRate (χ : ℝ) : ℝ := 1 - u2 o.alpha χ / o.distance χ

/-- The motion at an anomaly. -/
noncomputable def conic (χ : ℝ) : Motion ℝ :=
  ⟨o.f χ * o.start.position + o.g χ * o.start.velocity,
    o.fRate χ * o.start.position + o.gRate χ * o.start.velocity⟩

theorem conic_zero : o.conic 0 = o.start := by
  have unit (u v : Vec3 ℝ) : (1 : ℝ) * u + (0 : ℝ) * v = u ∧ (0 : ℝ) * u + (1 : ℝ) * v = v := by
    simp [Vec3.add_real, Vec3.smul_real]
  simp only [conic, f, g, fRate, gRate, u1_zero, u2_zero, mul_zero, zero_div, neg_zero, sub_zero,
    add_zero, unit]

namespace IsConic

variable {o} (ho : o.IsConic)

include ho

theorem dot_conic_position (χ : ℝ) :
    (o.conic χ).position.dot (o.conic χ).position = o.distance χ ^ 2 := by
  obtain ⟨radius, mu, -⟩ := ho.ne_zero χ
  have law := sq_u1 o.alpha χ
  rw [conic, Vec3.dot_combination, dot_position, ho.dot_position_velocity, ho.dot_velocity, f, g,
    distance_eq]
  simp only [u0] at law ⊢
  field_simp
  linear_combination o.radius * (o.radius * (2 - o.alpha * o.radius) - o.sigma ^ 2) * law

theorem dot_conic_position_velocity (χ : ℝ) :
    (o.conic χ).position.dot (o.conic χ).velocity = o.distanceRate χ * √o.mu := by
  obtain ⟨radius, mu, distance⟩ := ho.ne_zero χ
  rw [conic, Vec3.dot_combination, dot_position, ho.dot_position_velocity, ho.dot_velocity, f, g,
    fRate, gRate]
  field_simp
  rw [distance_eq, distanceRate_eq, u0]
  ring

theorem dot_conic_velocity (χ : ℝ) :
    (o.conic χ).velocity.dot (o.conic χ).velocity =
      √o.mu ^ 2 * (2 / o.distance χ - o.alpha) := by
  obtain ⟨radius, mu, distance⟩ := ho.ne_zero χ
  have law := sq_u1 o.alpha χ
  rw [conic, Vec3.dot_combination, dot_position, ho.dot_position_velocity, ho.dot_velocity,
    fRate, gRate]
  field_simp
  rw [distance_eq]
  simp only [u0] at law ⊢
  linear_combination o.radius * law

theorem f_mul_gRate (χ : ℝ) : o.f χ * o.gRate χ - o.g χ * o.fRate χ = 1 := by
  obtain ⟨radius, mu, distance⟩ := ho.ne_zero χ
  have law := sq_u1 o.alpha χ
  rw [f, g, fRate, gRate]
  field_simp
  rw [distance_eq]
  simp only [u0] at law ⊢
  linear_combination o.radius * law

theorem cross_conic (χ : ℝ) :
    (o.conic χ).position.cross (o.conic χ).velocity =
      o.start.position.cross o.start.velocity := by
  have whole := ho.f_mul_gRate χ
  simp only [conic, Vec3.cross, Vec3.add_real, Vec3.smul_real]
  apply Vec3.ext
  · linear_combination
      (o.start.position.y * o.start.velocity.z - o.start.position.z * o.start.velocity.y) * whole
  · linear_combination
      (o.start.position.z * o.start.velocity.x - o.start.position.x * o.start.velocity.z) * whole
  · linear_combination
      (o.start.position.x * o.start.velocity.y - o.start.position.y * o.start.velocity.x) * whole

theorem norm_conic (χ : ℝ) : (o.conic χ).position.norm = o.distance χ := by
  rw [Vec3.norm_real, ho.dot_conic_position, Real.sqrt_sq (ho.distance_pos χ).le]

/-- The step of the solver at the anomaly of a time depends on the anomaly alone. -/
theorem motionAt_eq {dt χ : ℝ} (h : o.IsAnomaly dt χ) : o.motionAt dt χ = o.conic χ := by
  have position : 1.0 - χ * χ / o.radius * (exactStumpff (o.psi χ)).c2 = o.f χ := by
    rw [f, u2, psi, Exact.literal_one]
    ring
  have time : dt - χ * χ * χ / √o.mu * (exactStumpff (o.psi χ)).c3 = o.g χ := by
    rw [← ho.isAnomaly_iff.mp h, elapsed, g, u3, psi]
    ring
  simp only [motionAt, advance, Exact.sqrt_eq, position, time]
  have norm := ho.norm_conic χ
  simp only [conic] at norm ⊢
  rw [norm, fRate, gRate, u1, u2, u3, Exact.literal_one, psi]
  congr 3
  · ring
  · ring

end IsConic

/-- The orbit of the motion at an anomaly. -/
noncomputable def after (χ : ℝ) : Orbit ℝ := ⟨o.conic χ, o.mu⟩

theorem mu_after (χ : ℝ) : (o.after χ).mu = o.mu := rfl

namespace IsConic

variable {o} (ho : o.IsConic)

include ho

theorem after (χ : ℝ) : (o.after χ).IsConic where
  mu_pos := ho.mu_pos
  turns := (ho.cross_conic χ).symm ▸ ho.turns

theorem radius_after (χ : ℝ) : (o.after χ).radius = o.distance χ := ho.norm_conic χ

theorem sigma_after (χ : ℝ) : (o.after χ).sigma = o.distanceRate χ := by
  change (o.conic χ).position.dot (o.conic χ).velocity / √o.mu = _
  rw [ho.dot_conic_position_velocity, mul_div_cancel_right₀ _ ho.sqrt_mu_pos.ne']

theorem alpha_after (χ : ℝ) : (o.after χ).alpha = o.alpha := by
  have mu := ho.mu_pos.ne'
  have energy : (o.after χ).alpha = 2 / (o.conic χ).position.norm -
      (o.conic χ).velocity.dot (o.conic χ).velocity / o.mu := by
    rw [alpha, Exact.literal_two]
    rfl
  rw [energy, ho.norm_conic, ho.dot_conic_velocity, ho.sq_sqrt_mu, mul_div_cancel_left₀ _ mu]
  ring

end IsConic

end LowThrust.Kepler.Orbit
