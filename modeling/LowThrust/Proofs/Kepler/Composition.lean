import Mathlib
import LowThrust.Proofs.Kepler.Lagrange

/-!
Coasts one after the other. Anomalies add up like the times they belong to, and the motion at the
sum of two anomalies is the one that the two steps reach.
-/

namespace LowThrust.Kepler.Orbit.IsConic

open Universal

variable {o : Orbit ℝ} (ho : o.IsConic)

include ho

theorem distance_add (a b : ℝ) : (o.after a).distance b = o.distance (a + b) := by
  rw [distance_eq, ho.alpha_after, ho.sigma_after, ho.radius_after, distance_eq, distance_eq,
    distanceRate_eq, u0_add, u1_add, u2_add]
  simp only [u0]
  ring

theorem elapsed_add (a b : ℝ) : o.elapsed (a + b) = o.elapsed a + (o.after a).elapsed b := by
  have mu := ho.sqrt_mu_pos.ne'
  rw [elapsed, elapsed, elapsed, ho.alpha_after, ho.sigma_after, ho.radius_after, mu_after,
    distance_eq, distanceRate_eq, u1_add, u2_add, u3_add]
  simp only [u0]
  field_simp
  ring

theorem f_add (a b : ℝ) :
    (o.after a).f b * o.f a + (o.after a).g b * o.fRate a = o.f (a + b) := by
  obtain ⟨radius, mu, distance⟩ := ho.ne_zero a
  have law := sq_u1 o.alpha a
  rw [f, f, f, g, fRate, ho.alpha_after, ho.sigma_after, ho.radius_after, mu_after, u2_add]
  field_simp
  rw [distance_eq, distanceRate_eq]
  simp only [u0] at law ⊢
  linear_combination (o.alpha * o.radius - 1) * u2 o.alpha b * law

theorem g_add (a b : ℝ) :
    (o.after a).f b * o.g a + (o.after a).g b * o.gRate a = o.g (a + b) := by
  obtain ⟨radius, mu, distance⟩ := ho.ne_zero a
  have law := sq_u1 o.alpha a
  rw [f, g, g, g, gRate, ho.alpha_after, ho.sigma_after, ho.radius_after, mu_after, u1_add, u2_add]
  field_simp
  rw [distance_eq, distanceRate_eq]
  simp only [u0] at law ⊢
  linear_combination o.sigma * u2 o.alpha b * law

theorem fRate_add (a b : ℝ) :
    (o.after a).fRate b * o.f a + (o.after a).gRate b * o.fRate a = o.fRate (a + b) := by
  obtain ⟨radius, mu, distance⟩ := ho.ne_zero a
  have distance' := (ho.distance_pos (a + b)).ne'
  have law := sq_u1 o.alpha a
  rw [f, fRate, fRate, fRate, gRate, ho.distance_add, ho.alpha_after, ho.radius_after, mu_after,
    u1_add]
  field_simp
  rw [distance_eq, distance_eq, u0_add, u1_add, u2_add]
  simp only [u0] at law ⊢
  linear_combination (o.alpha * o.radius - 1) * u1 o.alpha b * law

theorem gRate_add (a b : ℝ) :
    (o.after a).fRate b * o.g a + (o.after a).gRate b * o.gRate a = o.gRate (a + b) := by
  obtain ⟨radius, mu, distance⟩ := ho.ne_zero a
  have distance' := (ho.distance_pos (a + b)).ne'
  have law := sq_u1 o.alpha a
  rw [g, fRate, gRate, gRate, gRate, ho.distance_add, ho.alpha_after, ho.radius_after, mu_after,
    u2_add]
  field_simp
  rw [distance_eq, distance_eq, u0_add, u1_add, u2_add]
  simp only [u0] at law ⊢
  linear_combination o.sigma * u1 o.alpha b * law

/-- The motion of the orbit at one anomaly starts an orbit that goes on like the first. -/
theorem conic_after (a b : ℝ) : (o.after a).conic b = o.conic (a + b) := by
  have combine (k l p q p' q' : ℝ) (u v : Vec3 ℝ) :
      k * (p * u + q * v) + l * (p' * u + q' * v) =
        (k * p + l * p') * u + (k * q + l * q') * v := by
    simp only [Vec3.add_real, Vec3.smul_real]
    apply Vec3.ext <;> ring
  calc
    (o.after a).conic b =
        ⟨(o.after a).f b * (o.conic a).position + (o.after a).g b * (o.conic a).velocity,
          (o.after a).fRate b * (o.conic a).position +
            (o.after a).gRate b * (o.conic a).velocity⟩ := rfl
    _ = o.conic (a + b) := by
      rw [conic, combine, combine, ho.f_add, ho.g_add, ho.fRate_add, ho.gRate_add]
      rfl

/-- Coasts add up. The second one has the energy of the first; the sum of the anomalies belongs to
the sum of the times, and one step by it reaches what the two steps reach. The only way back in the
time of the first step is by its anomaly, and leads to the start. -/
theorem motionAt_motionAt {dt₁ χ₁ dt₂ χ₂ : ℝ} (h₁ : o.IsAnomaly dt₁ χ₁)
    (h₂ : IsAnomaly ⟨o.motionAt dt₁ χ₁, o.mu⟩ dt₂ χ₂) :
    alpha ⟨o.motionAt dt₁ χ₁, o.mu⟩ = o.alpha ∧ o.IsAnomaly (dt₁ + dt₂) (χ₁ + χ₂) ∧
      o.motionAt (dt₁ + dt₂) (χ₁ + χ₂) = motionAt ⟨o.motionAt dt₁ χ₁, o.mu⟩ dt₂ χ₂ ∧
      (∀ χ, IsAnomaly ⟨o.motionAt dt₁ χ₁, o.mu⟩ (-dt₁) χ ↔ χ = -χ₁) ∧
      motionAt ⟨o.motionAt dt₁ χ₁, o.mu⟩ (-dt₁) (-χ₁) = o.start := by
  have arrived : Orbit.mk (o.motionAt dt₁ χ₁) o.mu = o.after χ₁ := by
    rw [ho.motionAt_eq h₁, Orbit.after]
  rw [arrived] at h₂ ⊢
  have sum : o.IsAnomaly (dt₁ + dt₂) (χ₁ + χ₂) := by
    rw [ho.isAnomaly_iff] at h₁ ⊢
    rw [(ho.after χ₁).isAnomaly_iff] at h₂
    rw [ho.elapsed_add, h₁, h₂]
  have back (χ : ℝ) : (o.after χ₁).IsAnomaly (-dt₁) χ ↔ χ = -χ₁ := by
    have start : o.elapsed (χ₁ + χ) = o.elapsed 0 ↔ χ₁ + χ = 0 :=
      ho.elapsed_strictMono.injective.eq_iff
    rw [o.elapsed_zero, ho.elapsed_add, ho.isAnomaly_iff.mp h₁, add_eq_zero_iff_eq_neg',
      add_eq_zero_iff_eq_neg'] at start
    rw [(ho.after χ₁).isAnomaly_iff, start]
  refine ⟨ho.alpha_after χ₁, sum, ?_, back, ?_⟩
  · rw [ho.motionAt_eq sum, (ho.after χ₁).motionAt_eq h₂, ho.conic_after]
  · rw [(ho.after χ₁).motionAt_eq ((back _).mpr rfl), ho.conic_after, add_neg_cancel, conic_zero]

end LowThrust.Kepler.Orbit.IsConic

/-! ### A parabola -/

namespace LowThrust.Kepler.Orbit

open Universal

/-- Away from the centre, with the speed of escape. -/
noncomputable def parabola : Orbit ℝ := ⟨⟨⟨1, 0, 0⟩, ⟨1, 1, 0⟩⟩, 1⟩

theorem isConic_parabola : parabola.IsConic where
  mu_pos := one_pos
  turns := by simp [parabola, Vec3.cross]

theorem radius_parabola : parabola.radius = 1 := by
  rw [radius, parabola, Vec3.norm_real, Vec3.dot_real]
  norm_num

theorem alpha_parabola : parabola.alpha = 0 := by
  rw [alpha, radius_parabola, parabola, Vec3.dot_real]
  norm_num

theorem sigma_parabola : parabola.sigma = 1 := by
  simp [sigma, radial, parabola, Vec3.dot_real]

theorem elapsed_parabola (χ : ℝ) : parabola.elapsed χ = χ ^ 3 / 6 + χ ^ 2 / 2 + χ := by
  rw [elapsed, alpha_parabola, sigma_parabola, radius_parabola, u1_parabola, u2_parabola,
    u3_parabola]
  simp [parabola]

/-- Two steps by an anomaly of one. The first takes 5/3, both of them 16/3. -/
theorem motionAt_motionAt_parabola :
    alpha ⟨parabola.motionAt (5 / 3) 1, 1⟩ = parabola.alpha ∧
      parabola.IsAnomaly (5 / 3 + 11 / 3) (1 + 1) ∧
      parabola.motionAt (5 / 3 + 11 / 3) (1 + 1) =
        motionAt ⟨parabola.motionAt (5 / 3) 1, 1⟩ (11 / 3) 1 ∧
      motionAt ⟨parabola.motionAt (5 / 3) 1, 1⟩ (-(5 / 3)) (-1) = parabola.start := by
  have first : parabola.IsAnomaly (5 / 3) 1 := by
    rw [isConic_parabola.isAnomaly_iff, elapsed_parabola]
    norm_num
  have second : IsAnomaly ⟨parabola.motionAt (5 / 3) 1, parabola.mu⟩ (11 / 3) 1 := by
    have whole := isConic_parabola.elapsed_add 1 1
    rw [elapsed_parabola, elapsed_parabola] at whole
    rw [isConic_parabola.motionAt_eq first]
    refine (isConic_parabola.after 1).isAnomaly_iff.mpr ?_
    linarith
  obtain ⟨energy, sum, step, -, back⟩ := isConic_parabola.motionAt_motionAt first second
  exact ⟨energy, sum, step, back⟩

end LowThrust.Kepler.Orbit
