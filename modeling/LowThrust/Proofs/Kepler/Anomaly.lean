import Mathlib
import LowThrust.Kepler.Orbit
import LowThrust.Proofs.Kepler.Universal

/-!
The universal anomaly in exact arithmetic. The time since the start of a motion grows with the
anomaly, at a rate that is the distance from the centre; of a motion that turns about the centre
this stays away from zero, so that every time has one anomaly.
-/

namespace LowThrust

namespace Vec3

/-- The vector product. -/
def cross {α : Type} [Scalar α] (u v : Vec3 α) : Vec3 α :=
  ⟨u.y * v.z - u.z * v.y, u.z * v.x - u.x * v.z, u.x * v.y - u.y * v.x⟩

/-- Lagrange's identity. -/
theorem dot_cross (u v : Vec3 ℝ) :
    (u.cross v).dot (u.cross v) = u.dot u * v.dot v - u.dot v ^ 2 := by
  simp only [cross, dot_real]
  ring

theorem dot_self_nonneg (u : Vec3 ℝ) : 0 ≤ u.dot u :=
  add_nonneg (add_nonneg (mul_self_nonneg _) (mul_self_nonneg _)) (mul_self_nonneg _)

theorem eq_zero_of_dot_self {u : Vec3 ℝ} (h : u.dot u = 0) : u = .zero := by
  rw [dot_real] at h
  obtain ⟨xy, hz⟩ := (add_eq_zero_iff_of_nonneg (add_nonneg (mul_self_nonneg _)
    (mul_self_nonneg _)) (mul_self_nonneg _)).mp h
  obtain ⟨hx, hy⟩ := (add_eq_zero_iff_of_nonneg (mul_self_nonneg _) (mul_self_nonneg _)).mp xy
  rw [zero_real]
  exact ext (mul_self_eq_zero.mp hx) (mul_self_eq_zero.mp hy) (mul_self_eq_zero.mp hz)

theorem dot_self_pos {u : Vec3 ℝ} (h : u ≠ .zero) : 0 < u.dot u :=
  (dot_self_nonneg u).lt_of_ne' fun eq => h (eq_zero_of_dot_self eq)

theorem norm_mul_self (u : Vec3 ℝ) : u.norm * u.norm = u.dot u :=
  Real.mul_self_sqrt (dot_self_nonneg u)

end Vec3

namespace Kepler.Orbit

open Universal

variable (o : Orbit ℝ)

/-- The anomaly solves the universal Kepler equation for a time. -/
def IsAnomaly (dt χ : ℝ) : Prop := o.residual dt χ (exactStumpff (o.psi χ)) = 0

/-- The motion at an anomaly that is reached after a time. -/
noncomputable def motionAt (dt χ : ℝ) : Motion ℝ := o.advance dt χ (exactStumpff (o.psi χ))

/-- The distance from the centre at an anomaly. -/
noncomputable def distance (χ : ℝ) : ℝ := o.slope χ (exactStumpff (o.psi χ))

/-- How fast the distance grows with the anomaly. -/
noncomputable def distanceRate (χ : ℝ) : ℝ := o.curvature χ (exactStumpff (o.psi χ))

/-- The time after which an anomaly is reached. -/
noncomputable def elapsed (χ : ℝ) : ℝ :=
  (u3 o.alpha χ + o.sigma * u2 o.alpha χ + o.radius * u1 o.alpha χ) / √o.mu

theorem residual_eq (dt χ : ℝ) :
    o.residual dt χ (exactStumpff (o.psi χ)) =
      u3 o.alpha χ + o.sigma * u2 o.alpha χ + o.radius * u1 o.alpha χ - √o.mu * dt := by
  simp only [residual, u1, u2, u3, psi, Exact.literal_one, Exact.sqrt_eq]
  ring

theorem distance_eq (χ : ℝ) :
    o.distance χ = u2 o.alpha χ + o.sigma * u1 o.alpha χ + o.radius * u0 o.alpha χ := by
  simp only [distance, slope, u0, u1, u2, u3, psi, Exact.literal_one]
  ring

theorem distanceRate_eq (χ : ℝ) :
    o.distanceRate χ =
      o.sigma * u0 o.alpha χ + (1 - o.alpha * o.radius) * u1 o.alpha χ := by
  simp only [distanceRate, curvature, u0, u1, u2, u3, psi, Exact.literal_one]
  ring

theorem distance_zero : o.distance 0 = o.radius := by
  simp [distance_eq]

theorem elapsed_zero : o.elapsed 0 = 0 := by
  simp [elapsed]

theorem hasDerivAt_distance (χ : ℝ) : HasDerivAt o.distance (o.distanceRate χ) χ := by
  rw [funext o.distance_eq, distanceRate_eq]
  refine (((hasDerivAt_u2 o.alpha χ).add ((hasDerivAt_u1 o.alpha χ).const_mul o.sigma)).add
    ((hasDerivAt_u0 o.alpha χ).const_mul o.radius)).congr_deriv ?_
  ring

theorem hasDerivAt_elapsed (χ : ℝ) : HasDerivAt o.elapsed (o.distance χ / √o.mu) χ := by
  rw [distance_eq]
  exact ((((hasDerivAt_u3 o.alpha χ).add ((hasDerivAt_u2 o.alpha χ).const_mul o.sigma)).add
    ((hasDerivAt_u1 o.alpha χ).const_mul o.radius)).div_const √o.mu)

/-- A motion that turns about a centre that attracts it. -/
structure IsConic : Prop where
  mu_pos : 0 < o.mu
  turns : o.start.position.cross o.start.velocity ≠ .zero

/-- The width of the conic at its focus: the square of the angular momentum over `mu`. -/
noncomputable def parameter : ℝ :=
  (o.start.position.cross o.start.velocity).dot (o.start.position.cross o.start.velocity) / o.mu

theorem dot_position : o.start.position.dot o.start.position = o.radius ^ 2 := by
  rw [sq, radius, Vec3.norm_mul_self]

namespace IsConic

variable {o} (ho : o.IsConic)

include ho

theorem radius_pos : 0 < o.radius := by
  refine Real.sqrt_pos.mpr (Vec3.dot_self_pos fun eq => ho.turns ?_)
  rw [eq, Vec3.zero_real]
  simp [Vec3.cross]

theorem sqrt_mu_pos : 0 < √o.mu := Real.sqrt_pos.mpr ho.mu_pos

theorem sq_sqrt_mu : √o.mu ^ 2 = o.mu := Real.sq_sqrt ho.mu_pos.le

theorem dot_velocity :
    o.start.velocity.dot o.start.velocity = √o.mu ^ 2 * (2 / o.radius - o.alpha) := by
  have mu := ho.mu_pos.ne'
  rw [ho.sq_sqrt_mu, alpha, Exact.literal_two]
  field_simp
  ring

theorem dot_position_velocity : o.start.position.dot o.start.velocity = o.sigma * √o.mu :=
  (div_mul_cancel₀ _ ho.sqrt_mu_pos.ne').symm

theorem parameter_pos : 0 < o.parameter :=
  div_pos (Vec3.dot_self_pos ho.turns) ho.mu_pos

/-- Conservation of the angular momentum. -/
theorem parameter_eq (χ : ℝ) :
    2 * o.distance χ - o.alpha * o.distance χ ^ 2 - o.distanceRate χ ^ 2 = o.parameter := by
  have radius := ho.radius_pos.ne'
  have start : o.parameter = 2 * o.radius - o.alpha * o.radius ^ 2 - o.sigma ^ 2 := by
    rw [parameter, div_eq_iff ho.mu_pos.ne', Vec3.dot_cross, dot_position, dot_velocity ho,
      dot_position_velocity ho, mul_pow, ho.sq_sqrt_mu]
    field_simp
  have law := sq_u1 o.alpha χ
  rw [start, distance_eq, distanceRate_eq]
  simp only [u0] at law ⊢
  linear_combination (-(o.alpha * o.sigma ^ 2) - (1 - o.alpha * o.radius) ^ 2) * law

/-- The distance has no zero, and so no change of sign. -/
theorem distance_pos (χ : ℝ) : 0 < o.distance χ := by
  have ne (χ : ℝ) : o.distance χ ≠ 0 := by
    intro zero
    have law := ho.parameter_eq χ
    have pos := ho.parameter_pos
    rw [zero] at law
    nlinarith [sq_nonneg (o.distanceRate χ)]
  have continuous : Continuous o.distance :=
    continuous_iff_continuousAt.mpr fun χ => (o.hasDerivAt_distance χ).continuousAt
  by_contra not_pos
  obtain ⟨χ₀, zero⟩ := mem_range_of_exists_le_of_exists_ge continuous ⟨χ, not_lt.mp not_pos⟩
    ⟨0, o.distance_zero ▸ ho.radius_pos.le⟩
  exact ne χ₀ zero

theorem ne_zero (χ : ℝ) : o.radius ≠ 0 ∧ √o.mu ≠ 0 ∧ o.distance χ ≠ 0 :=
  ⟨ho.radius_pos.ne', ho.sqrt_mu_pos.ne', (ho.distance_pos χ).ne'⟩

/-- The distance stays away from zero. -/
theorem exists_le_distance : ∃ c > 0, ∀ χ, c ≤ o.distance χ := by
  have pos := ho.parameter_pos
  refine ⟨min 1 (o.parameter / (2 + |o.alpha|)), by positivity, fun χ => ?_⟩
  have distance := ho.distance_pos χ
  have law := ho.parameter_eq χ
  rcases le_total 1 (o.distance χ) with far | near
  · exact (min_le_left ..).trans far
  · refine (min_le_right ..).trans ((div_le_iff₀ (by positivity)).mpr ?_)
    have square : -(o.alpha * o.distance χ ^ 2) ≤ |o.alpha| * o.distance χ := by
      calc
        -(o.alpha * o.distance χ ^ 2) = -o.alpha * o.distance χ ^ 2 := by ring
        _ ≤ |o.alpha| * o.distance χ ^ 2 := by gcongr; exact neg_le_abs _
        _ ≤ |o.alpha| * o.distance χ := by gcongr; nlinarith
    nlinarith [sq_nonneg (o.distanceRate χ)]

theorem isAnomaly_iff {dt χ : ℝ} : o.IsAnomaly dt χ ↔ o.elapsed χ = dt := by
  rw [IsAnomaly, residual_eq, sub_eq_zero, elapsed, div_eq_iff ho.sqrt_mu_pos.ne',
    mul_comm dt]

theorem elapsed_strictMono : StrictMono o.elapsed :=
  strictMono_of_hasDerivAt_pos o.hasDerivAt_elapsed
    fun χ => div_pos (ho.distance_pos χ) ho.sqrt_mu_pos

theorem elapsed_surjective : Function.Surjective o.elapsed := by
  obtain ⟨c, hc, le⟩ := ho.exists_le_distance
  have rate : 0 < c / √o.mu := div_pos hc ho.sqrt_mu_pos
  have differentiable : Differentiable ℝ o.elapsed :=
    fun χ => (o.hasDerivAt_elapsed χ).differentiableAt
  have grows {a b : ℝ} (h : a ≤ b) : c / √o.mu * (b - a) ≤ o.elapsed b - o.elapsed a := by
    refine mul_sub_le_image_sub_of_le_deriv differentiable (fun χ => ?_) h
    rw [(o.hasDerivAt_elapsed χ).deriv]
    exact div_le_div_of_nonneg_right (le χ) ho.sqrt_mu_pos.le
  intro dt
  have far : 0 ≤ |dt| / (c / √o.mu) := div_nonneg (abs_nonneg dt) rate.le
  have whole : c / √o.mu * (|dt| / (c / √o.mu)) = |dt| := mul_div_cancel₀ _ rate.ne'
  have before := grows (neg_nonpos.mpr far)
  have after := grows far
  simp only [elapsed_zero, sub_zero, zero_sub, sub_neg_eq_add, zero_add, whole] at before after
  refine mem_range_of_exists_le_of_exists_ge differentiable.continuous
    ⟨-(|dt| / (c / √o.mu)), ?_⟩ ⟨|dt| / (c / √o.mu), ?_⟩
  · exact (le_neg_of_le_neg before).trans (neg_abs_le dt)
  · exact (le_abs_self dt).trans after

/-- Every time has one anomaly. -/
theorem existsUnique_anomaly (dt : ℝ) : ∃! χ, o.IsAnomaly dt χ := by
  simp only [ho.isAnomaly_iff]
  exact (Function.bijective_iff_existsUnique _).mp
    ⟨ho.elapsed_strictMono.injective, ho.elapsed_surjective⟩ dt

end IsConic

end Kepler.Orbit

end LowThrust
