import Mathlib
import LowThrust.Proofs.Kepler.Composition

/-!
What a coast conserves. The step of the solver is a combination of position and velocity at the
start, and the area that the two span is multiplied by the determinant of its coefficients. At a
root of the universal Kepler equation this is one, and the energy is that of the start.
-/

namespace LowThrust

/-- A vector that is not zero is a multiple of itself by one alone. -/
theorem Vec3.eq_one_of_smul {a : ℝ} {u : Vec3 ℝ} (hu : u ≠ .zero) (h : a * u = u) : a = 1 := by
  by_contra other
  have component {x : ℝ} (eq : a * x = x) : x = 0 := (mul_left_eq_self₀.mp eq).resolve_left other
  rw [zero_real] at hu
  exact hu (ext (component (congrArg x h)) (component (congrArg y h)) (component (congrArg z h)))

namespace Kepler

/-- Lagrange's coefficients: a motion in terms of another one. -/
structure Lagrange (α : Type) where
  f : α
  g : α
  fRate : α
  gRate : α

namespace Lagrange

variable {α : Type} [Scalar α]

def combine (c : Lagrange α) (m : Motion α) : Motion α :=
  ⟨c.f * m.position + c.g * m.velocity, c.fRate * m.position + c.gRate * m.velocity⟩

def determinant (c : Lagrange α) : α := c.f * c.gRate - c.fRate * c.g

theorem cross_combine (c : Lagrange ℝ) (m : Motion ℝ) :
    (c.combine m).position.cross (c.combine m).velocity =
      c.determinant * m.position.cross m.velocity := by
  simp only [combine, determinant, Vec3.cross, Vec3.add_real, Vec3.smul_real]
  apply Vec3.ext <;> ring

end Lagrange

namespace Orbit

open Universal

/-- The coefficients of the solver's step. Those of the velocity need the distance reached. -/
def lagrange {α : Type} [Scalar α] (o : Orbit α) (dt χ : α) (s : Stumpff α) : Lagrange α :=
  let distance := (o.advance dt χ s).position.norm
  { f := 1.0 - χ * χ / o.radius * s.c2
    g := dt - χ * χ * χ / Scalar.sqrt o.mu * s.c3
    fRate := Scalar.sqrt o.mu / (distance * o.radius) * χ * (o.psi χ * s.c3 - 1.0)
    gRate := 1.0 - χ * χ / distance * s.c2 }

theorem advance_eq_combine {α : Type} [Scalar α] (o : Orbit α) (dt χ : α) (s : Stumpff α) :
    o.advance dt χ s = (o.lagrange dt χ s).combine o.start := rfl

namespace IsConic

variable {o : Orbit ℝ} (ho : o.IsConic)

include ho

/-- Of a motion about the centre, the energy depends on the size of the conic alone. -/
theorem energy_eq : o.energy = .ok (-(o.mu * o.alpha) / 2) := by
  have radius := ho.radius_pos.ne'
  have value : 0.5 * o.start.velocity.dot o.start.velocity - o.mu / o.radius =
      -(o.mu * o.alpha) / 2 := by
    rw [ho.dot_velocity, ho.sq_sqrt_mu]
    field_simp
    ring
  rw [energy, value, if_neg]
  rw [Exact.literal_zero, Exact.beq_iff]
  exact radius

theorem energy_after (χ : ℝ) : (o.after χ).energy = o.energy := by
  rw [(ho.after χ).energy_eq, ho.energy_eq, ho.alpha_after, mu_after]

/-- Every step by the anomaly of a time, forward or backward, keeps the angular momentum and the
energy, and ends at the distance that is the slope of the universal Kepler equation there. -/
theorem advance_conserves {dt χ : ℝ} (h : o.IsAnomaly dt χ) :
    let s := exactStumpff (o.psi χ)
    let reached := o.advance dt χ s
    reached = (o.lagrange dt χ s).combine o.start ∧ (o.lagrange dt χ s).determinant = 1 ∧
      reached.position.cross reached.velocity = o.start.position.cross o.start.velocity ∧
      (∃ e, o.energy = .ok e ∧ energy ⟨reached, o.mu⟩ = .ok e) ∧
      reached.position.norm = o.slope χ s := by
  intro s reached
  have arrived : reached = o.conic χ := ho.motionAt_eq h
  have momentum : reached.position.cross reached.velocity =
      o.start.position.cross o.start.velocity := by
    rw [arrived, ho.cross_conic]
  have area := (o.lagrange dt χ s).cross_combine o.start
  rw [← advance_eq_combine] at area
  refine ⟨rfl, Vec3.eq_one_of_smul ho.turns (area.symm.trans momentum), momentum, ?_, ?_⟩
  · rw [arrived]
    exact ⟨_, ho.energy_eq, (ho.energy_after χ).trans ho.energy_eq⟩
  · rw [arrived, ho.norm_conic]
    rfl

end IsConic

/-! ### A parabola, backward -/

/-- Two thirds before the start the parabola is at half the distance. -/
theorem advance_conserves_parabola :
    let s := exactStumpff (parabola.psi (-1))
    let reached := parabola.advance (-(2 / 3)) (-1) s
    parabola.IsAnomaly (-(2 / 3)) (-1) ∧
      reached = (parabola.lagrange (-(2 / 3)) (-1) s).combine parabola.start ∧
      (parabola.lagrange (-(2 / 3)) (-1) s).determinant = 1 ∧
      reached.position.cross reached.velocity = ⟨0, 0, 1⟩ ∧
      energy ⟨reached, 1⟩ = .ok 0 ∧ reached.position.norm = 1 / 2 := by
  intro s reached
  have anomaly : parabola.IsAnomaly (-(2 / 3)) (-1) := by
    rw [isConic_parabola.isAnomaly_iff, elapsed_parabola]
    norm_num
  obtain ⟨step, determinant, momentum, ⟨e, start, energy⟩, distance⟩ :=
    isConic_parabola.advance_conserves anomaly
  refine ⟨anomaly, step, determinant, momentum.trans ?_, energy.trans ?_, distance.trans ?_⟩
  · simp [parabola, Vec3.cross]
  · rw [← start, isConic_parabola.energy_eq, alpha_parabola, mul_zero, neg_zero, zero_div]
  · change parabola.distance (-1) = 1 / 2
    rw [distance_eq, alpha_parabola, sigma_parabola, radius_parabola, u0_parabola, u1_parabola,
      u2_parabola]
    norm_num

end Orbit

end Kepler

end LowThrust
