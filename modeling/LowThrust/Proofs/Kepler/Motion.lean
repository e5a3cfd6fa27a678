import Mathlib
import LowThrust.Dynamics
import LowThrust.Proofs.Kepler.Lagrange

/-!
The analytic coast solves the equations of motion. Along the anomaly a motion moves with its
velocity and accelerates by gravity, both slowed down by how little time an anomaly takes close to
the centre; along the time it is a solution of the equations that are integrated numerically.
-/

namespace LowThrust

/-- The rate of change of a vector, by components. -/
structure Vec3.HasRate (u : ℝ → Vec3 ℝ) (rate : Vec3 ℝ) (t : ℝ) : Prop where
  x : HasDerivAt (fun t => (u t).x) rate.x t
  y : HasDerivAt (fun t => (u t).y) rate.y t
  z : HasDerivAt (fun t => (u t).z) rate.z t

/-- The rate of change of a state, by components. -/
structure State.HasRate (s : ℝ → State ℝ) (rate : State ℝ) (t : ℝ) : Prop where
  position : Vec3.HasRate (fun t => (s t).position) rate.position t
  velocity : Vec3.HasRate (fun t => (s t).velocity) rate.velocity t
  mass : HasDerivAt (fun t => (s t).mass) rate.mass t

/-- A solution of `y' = f y` at all times. -/
def State.Solves (f : State ℝ → State ℝ) (s : ℝ → State ℝ) : Prop :=
  ∀ t, State.HasRate s (f (s t)) t

namespace Vec3.HasRate

theorem congr_rate {u : ℝ → Vec3 ℝ} {rate rate' : Vec3 ℝ} {t : ℝ} (h : Vec3.HasRate u rate t)
    (eq : rate = rate') : Vec3.HasRate u rate' t := eq ▸ h

theorem combination {a b : ℝ → ℝ} {a' b' t : ℝ} (ha : HasDerivAt a a' t)
    (hb : HasDerivAt b b' t) (u v : Vec3 ℝ) :
    Vec3.HasRate (fun t => a t * u + b t * v) (a' * u + b' * v) t where
  x := (ha.mul_const u.x).add (hb.mul_const v.x)
  y := (ha.mul_const u.y).add (hb.mul_const v.y)
  z := (ha.mul_const u.z).add (hb.mul_const v.z)

theorem comp {u : ℝ → Vec3 ℝ} {rate : Vec3 ℝ} {χ : ℝ → ℝ} {χ' t : ℝ}
    (hu : Vec3.HasRate u rate (χ t)) (hχ : HasDerivAt χ χ' t) :
    Vec3.HasRate (fun t => u (χ t)) (rate * χ') t where
  x := hu.x.comp t hχ
  y := hu.y.comp t hχ
  z := hu.z.comp t hχ

end Vec3.HasRate

namespace Kepler.Orbit.IsConic

open Universal

variable {o : Orbit ℝ} (ho : o.IsConic)

include ho

theorem hasDerivAt_f (χ : ℝ) : HasDerivAt o.f (o.distance χ / √o.mu * o.fRate χ) χ := by
  obtain ⟨-, mu, distance⟩ := ho.ne_zero χ
  refine (((hasDerivAt_u2 o.alpha χ).div_const o.radius).const_sub 1).congr_deriv ?_
  rw [fRate]
  field_simp

theorem hasDerivAt_g (χ : ℝ) : HasDerivAt o.g (o.distance χ / √o.mu * o.gRate χ) χ := by
  obtain ⟨-, mu, distance⟩ := ho.ne_zero χ
  refine ((((hasDerivAt_u1 o.alpha χ).const_mul o.radius).add
    ((hasDerivAt_u2 o.alpha χ).const_mul o.sigma)).div_const √o.mu).congr_deriv ?_
  rw [gRate]
  field_simp
  rw [distance_eq]
  ring

theorem hasDerivAt_fRate (χ : ℝ) :
    HasDerivAt o.fRate (-(√o.mu * o.f χ) / o.distance χ ^ 2) χ := by
  obtain ⟨radius, mu, distance⟩ := ho.ne_zero χ
  have law := sq_u1 o.alpha χ
  have numerator : HasDerivAt (fun χ => -(√o.mu * u1 o.alpha χ)) (-(√o.mu * u0 o.alpha χ)) χ :=
    ((hasDerivAt_u1 o.alpha χ).const_mul √o.mu).neg
  have denominator := (o.hasDerivAt_distance χ).mul_const o.radius
  refine (numerator.div denominator (mul_ne_zero distance radius)).congr_deriv ?_
  rw [f]
  field_simp
  rw [distance_eq, distanceRate_eq]
  simp only [u0] at law ⊢
  linear_combination (1 - o.alpha * o.radius) * law

theorem hasDerivAt_gRate (χ : ℝ) :
    HasDerivAt o.gRate (-(√o.mu * o.g χ) / o.distance χ ^ 2) χ := by
  obtain ⟨-, mu, distance⟩ := ho.ne_zero χ
  have law := sq_u1 o.alpha χ
  refine (((hasDerivAt_u2 o.alpha χ).div (o.hasDerivAt_distance χ) distance).const_sub
    1).congr_deriv ?_
  rw [g]
  field_simp
  rw [distance_eq, distanceRate_eq]
  simp only [u0] at law ⊢
  linear_combination -o.sigma * law

/-- Along the anomaly the position changes by the velocity, for the time that the anomaly takes. -/
theorem hasRate_position (χ : ℝ) :
    Vec3.HasRate (fun χ => (o.conic χ).position)
      (o.distance χ / √o.mu * (o.conic χ).velocity) χ := by
  refine (Vec3.HasRate.combination (ho.hasDerivAt_f χ) (ho.hasDerivAt_g χ) _ _).congr_rate ?_
  simp only [conic, Vec3.add_real, Vec3.smul_real, mul_add, mul_assoc]

/-- And the velocity changes by gravity, for the same time. -/
theorem hasRate_velocity (χ : ℝ) :
    Vec3.HasRate (fun χ => (o.conic χ).velocity)
      (o.distance χ / √o.mu * gravity o.mu (o.conic χ).position) χ := by
  obtain ⟨-, mu, distance⟩ := ho.ne_zero χ
  refine (Vec3.HasRate.combination (ho.hasDerivAt_fRate χ) (ho.hasDerivAt_gRate χ) _
    _).congr_rate ?_
  rw [gravity, Exact.cube_eq, ho.norm_conic, ← ho.sq_sqrt_mu, Real.sqrt_sq ho.sqrt_mu_pos.le]
  simp only [conic, Vec3.add_real, Vec3.smul_real, Vec3.div_real]
  apply Vec3.ext
  · field_simp
    ring
  · field_simp
    ring
  · field_simp
    ring

/-- Every time has one anomaly, which changes the slower the farther the centre is. -/
theorem exists_anomalies : ∃ χ : ℝ → ℝ, (∀ dt y, o.IsAnomaly dt y ↔ y = χ dt) ∧
    ∀ dt, HasDerivAt χ (√o.mu / o.distance (χ dt)) dt := by
  let times := ho.elapsed_strictMono.orderIsoOfSurjective _ ho.elapsed_surjective
  refine ⟨times.symm, fun dt y => ?_, fun dt => ?_⟩
  · rw [ho.isAnomaly_iff, OrderIso.eq_symm_apply]
    rfl
  · have rate := (div_pos (ho.distance_pos (times.symm dt)) ho.sqrt_mu_pos).ne'
    have inverse := (o.hasDerivAt_elapsed (times.symm dt)).of_local_left_inverse
      times.symm.continuous.continuousAt rate (.of_forall times.apply_symm_apply)
    rwa [inv_div] at inverse

/-- The motion after a time, by the solver's step at the one anomaly of that time, starts where the
orbit starts and solves the equations of a coast, whose mass is constant. -/
theorem solves_coastRate : ∃ χ : ℝ → ℝ, (∀ dt y, o.IsAnomaly dt y ↔ y = χ dt) ∧
    o.motionAt 0 (χ 0) = o.start ∧
    ∀ mass, State.Solves (State.coastRate o.mu) fun dt => ⟨o.motionAt dt (χ dt), mass⟩ := by
  obtain ⟨χ, anomaly, slows⟩ := ho.exists_anomalies
  have reached (dt : ℝ) : o.motionAt dt (χ dt) = o.conic (χ dt) :=
    ho.motionAt_eq ((anomaly dt _).mpr rfl)
  have start : χ 0 = 0 := ((anomaly 0 0).mp (ho.isAnomaly_iff.mpr o.elapsed_zero)).symm
  refine ⟨χ, anomaly, ?_, fun mass dt => ?_⟩
  · rw [reached, start, conic_zero]
  obtain ⟨-, mu, distance⟩ := ho.ne_zero (χ dt)
  -- how long the anomaly takes cancels against how fast it changes
  have cancel (v : Vec3 ℝ) :
      o.distance (χ dt) / √o.mu * v * (√o.mu / o.distance (χ dt)) = v := by
    simp only [Vec3.smul_real, Vec3.mul_real]
    apply Vec3.ext <;> field_simp
  simp only [reached]
  exact {
    position := ((ho.hasRate_position (χ dt)).comp (slows dt)).congr_rate (cancel _)
    velocity := ((ho.hasRate_velocity (χ dt)).comp (slows dt)).congr_rate (cancel _)
    mass := by simpa [State.coastRate] using hasDerivAt_const dt mass }

end Kepler.Orbit.IsConic

/-! ### A hyperbola -/

namespace Kepler.Orbit

/-- Out of the plane of the axes, with more than the speed of escape. -/
noncomputable def hyperbola : Orbit ℝ := ⟨⟨⟨1, 0, 0⟩, ⟨1, 1, 1⟩⟩, 1⟩

theorem isConic_hyperbola : hyperbola.IsConic where
  mu_pos := one_pos
  turns := by simp [hyperbola, Vec3.cross]

theorem solves_coastRate_hyperbola : ∃ χ : ℝ → ℝ,
    (∀ dt y, hyperbola.IsAnomaly dt y ↔ y = χ dt) ∧
    hyperbola.motionAt 0 (χ 0) = ⟨⟨1, 0, 0⟩, ⟨1, 1, 1⟩⟩ ∧
    ∀ mass, State.Solves (State.coastRate 1) fun dt => ⟨hyperbola.motionAt dt (χ dt), mass⟩ :=
  isConic_hyperbola.solves_coastRate

end Kepler.Orbit

end LowThrust
