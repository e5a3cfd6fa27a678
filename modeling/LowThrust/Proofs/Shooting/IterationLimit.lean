import Mathlib
import LowThrust.Proofs.Kepler.Composition
import LowThrust.Proofs.Kepler.Iteration
import LowThrust.Proofs.Leg.Exchange
import LowThrust.Proofs.Shooting.Ballistic

/-!
Legs under a limit on the corrections of the Kepler solver. A coast that is given up ends the
evaluation, and what is evaluated without one does not know of the limit.
-/

namespace LowThrust

variable {α : Type} [Scalar α]

namespace Flight

variable {coast coast' : Coast α} (hc : ∀ m dt, Curtails (coast m dt) (coast' m dt))

include hc

theorem coastTo_curtails (f : Flight α) (clock : α) :
    Curtails (f.coastTo coast clock) (f.coastTo coast' clock) :=
  .bind (hc _ _) fun _ => .refl _

theorem impulsive_curtails (e : Engine α) (f : Flight α) (s : ThrottleSegment α) :
    Curtails (f.impulsive coast e s) (f.impulsive coast' e s) :=
  .bind (coastTo_curtails hc f _) fun _ => .refl _

theorem throughArc_curtails (arc : ThrustArc α) (thrust : α) (f : Flight α)
    (s : ThrottleSegment α) :
    Curtails (f.throughArc coast arc thrust s) (f.throughArc coast' arc thrust s) :=
  .bind (coastTo_curtails hc f _) fun _ => .refl _

theorem backThroughArc_curtails (arc : ThrustArc α) (thrust : α) (f : Flight α)
    (s : ThrottleSegment α) :
    Curtails (f.backThroughArc coast arc thrust s) (f.backThroughArc coast' arc thrust s) :=
  .bind (coastTo_curtails hc f _) fun _ => .refl _

theorem mismatch_curtails (f g : Flight α) :
    Curtails (f.mismatch coast g) (f.mismatch coast' g) :=
  .bind (coastTo_curtails hc f _) fun _ => .refl _

end Flight

namespace Transfer

variable (t : Transfer α)

section Coasts

variable {coast coast' : Coast α} (hc : ∀ m dt, Curtails (coast m dt) (coast' m dt))

include hc

theorem shootImpulsive_curtails : Curtails (t.shootImpulsive coast) (t.shootImpulsive coast') := by
  refine .bind (.foldlM (fun f s => Flight.impulsive_curtails hc _ f s) _ _) fun f => ?_
  refine .bind (.foldlM (fun f s => Flight.impulsive_curtails hc _ f s) _ _) fun g => ?_
  exact Flight.mismatch_curtails hc f g

theorem shootHighFidelity_curtails (arc : ThrustArc α) :
    Curtails (t.shootHighFidelity coast arc) (t.shootHighFidelity coast' arc) := by
  refine .bind (.foldlM (fun f s => Flight.throughArc_curtails hc arc _ f s) _ _) fun f => ?_
  refine .bind (.foldlM (fun f s => Flight.backThroughArc_curtails hc arc _ f s) _ _) fun g => ?_
  exact Flight.mismatch_curtails hc f g

theorem mismatchBy_curtails (integrator : Integrator α) :
    Curtails (t.mismatchBy integrator coast) (t.mismatchBy integrator coast') := by
  rw [mismatchBy, mismatchBy]
  split
  · exact .bind (.refl _) fun p => t.shootHighFidelity_curtails hc (t.thrustArc integrator p)
  · exact t.shootImpulsive_curtails hc

end Coasts

/-- The leg with another limit on the corrections of the Kepler solver. -/
def upTo (limit : Int) (t : Transfer α) : Transfer α :=
  { t with config.kepler := t.config.kepler.upTo limit }

/-- The leg with other settings of the Kepler solver. -/
def withKepler (kepler : KeplerConfig α) (t : Transfer α) : Transfer α :=
  { t with config.kepler := kepler }

/-- Only the coasts of a leg know of the settings. -/
theorem mismatch_withKepler (kepler : KeplerConfig α) (integrator : Integrator α) :
    (t.withKepler kepler).mismatch integrator =
      t.mismatchBy integrator (t.withKepler kepler).coast := by
  change (t.withKepler kepler).mismatchBy integrator (t.withKepler kepler).coast = _
  simp only [mismatchBy, Propagator.create]
  by_cases hmu : t.mu > 0.0
  · rw [if_pos hmu, if_pos (show (t.withKepler kepler).mu > 0.0 from hmu)]
    rfl
  · rw [if_neg hmu, if_neg (show ¬ (t.withKepler kepler).mu > 0.0 from hmu)]
    rfl

theorem mismatch_upTo (limit : Int) (integrator : Integrator α) :
    (t.upTo limit).mismatch integrator = t.mismatchBy integrator (t.upTo limit).coast :=
  t.mismatch_withKepler (t.config.kepler.upTo limit) integrator

theorem mismatch_upTo_curtails {limit limit' : Int} (h : limit ≤ limit')
    (integrator : Integrator α) :
    Curtails ((t.upTo limit).mismatch integrator) ((t.upTo limit').mismatch integrator) := by
  rw [mismatch_upTo, mismatch_upTo]
  refine t.mismatchBy_curtails (fun m dt => ?_) integrator
  exact Kepler.Orbit.coast_upTo h Kepler.stumpff t.config.kepler ⟨m, t.mu⟩ dt

end Transfer

namespace Leg

/-- The leg with another limit on the corrections of the Kepler solver. -/
def upTo (limit : Int) (leg : Leg α) : Leg α :=
  { leg with config.kepler := leg.config.kepler.upTo limit }

omit [Scalar α] in
theorem snapshot_upTo (limit : Int) (leg : Leg α) :
    (leg.upTo limit).snapshot = leg.snapshot.map (Transfer.upTo limit) := by
  obtain ⟨_, _ | _, _ | _, _, _ | _, _ | _, _ | _, _ | _, _⟩ := leg <;> rfl

theorem mismatch_upTo_curtails {limit limit' : Int} (h : limit ≤ limit')
    (integrator : Integrator α) (leg : Leg α) :
    Curtails ((leg.upTo limit).mismatch integrator) ((leg.upTo limit').mismatch integrator) := by
  rw [mismatch, snapshot_upTo, mismatch, snapshot_upTo]
  cases leg.snapshot with
  | error fault => exact .refl _
  | ok t => exact t.mismatch_upTo_curtails h integrator

/-- A greater limit leaves every mismatch and every coast as it is. What it adds was given up below
it; and a coast is given up exactly if all corrections within the limit lead on. -/
theorem evaluation_upTo {limit limit' : Int} (h : limit ≤ limit') (integrator : Integrator α)
    (leg : Leg α) (config : KeplerConfig α) (mu : α) (start : Motion α) (dt : α) :
    let mismatch limit := (leg.upTo limit).mismatch integrator
    let coast limit := Kepler.propagate (config.upTo limit) mu start dt
    (∀ m, mismatch limit = .ok m → mismatch limit' = .ok m) ∧
      (∀ m, mismatch limit' = .ok m → (∀ m, mismatch limit ≠ .ok m) →
        ∃ cause, mismatch limit = .error (.propagation cause)) ∧
      (∀ m, coast limit = .ok m → coast limit' = .ok m) ∧
      (∀ m, coast limit' = .ok m → (∀ m, coast limit ≠ .ok m) →
        ∃ cause, coast limit = .error (.propagation cause)) ∧
      (mu > 0.0 → (dt == 0.0) = false → Kepler.Orbit.isRegular ⟨start, mu⟩ dt = true →
        ((∃ cause, coast limit = .error (.propagation cause)) ↔
          ∀ k < limit.toNat, Kepler.Orbit.GoesOn Kepler.stumpff ⟨start, mu⟩ dt config.tol k)) := by
  intro mismatch coast
  have legs : Curtails (mismatch limit) (mismatch limit') :=
    mismatch_upTo_curtails h integrator leg
  have coasts : Curtails (coast limit) (coast limit') :=
    Kepler.Orbit.coast_upTo h Kepler.stumpff config ⟨start, mu⟩ dt
  exact ⟨fun _ => legs.ok, fun _ => legs.error, fun _ => coasts.ok, fun _ => coasts.error,
    Kepler.Orbit.coast_eq_propagation_iff (o := ⟨start, mu⟩) (config.upTo limit)⟩

end Leg

/-! ### One correction -/

namespace Kepler

theorem stumpff_zero : stumpff (0 : ℝ) = ⟨1 / 2, 1 / 6⟩ := by
  have small : Scalar.abs (0 : ℝ) < seriesBound := by
    change |(0 : ℝ)| < 1e-3
    norm_num
  rw [stumpff, stumpffC2, stumpffC3, if_pos small, if_pos small, seriesC2, seriesC3]
  norm_num

namespace Orbit

/-- The first correction on the parabola is not the last one, if nothing but an exact root is. -/
theorem goesOn_parabola : parabola.GoesOn stumpff 1 0 0 where
  finite := rfl
  large := by
    have start : parabola.anomalyAfter stumpff 1 0 = 1 := by
      change initialGuess parabola.radius parabola.radial parabola.alpha 1 1 = 1
      simp [initialGuess, alpha_parabola, radius_parabola]
    have psi : parabola.psi 1 = 0 := by rw [psi, alpha_parabola, mul_zero]
    have residual : parabola.residual 1 1 ⟨1 / 2, 1 / 6⟩ = 2 / 3 := by
      rw [residual, psi, sigma_parabola, radius_parabola]
      norm_num [parabola]
    have slope : parabola.slope 1 ⟨1 / 2, 1 / 6⟩ = 5 / 2 := by
      rw [slope, psi, sigma_parabola, radius_parabola]
      norm_num
    have step : parabola.correction stumpff 1 0 ≠ 0 := by
      rw [correction, start, psi, stumpff_zero, step, laguerreStep, residual, slope]
      have denominator : 0 < 5 / 2 + √(Scalar.abs (16.0 * (5 / 2) * (5 / 2) -
          20.0 * (2 / 3) * parabola.curvature 1 ⟨1 / 2, 1 / 6⟩)) := by positivity
      exact div_ne_zero (by norm_num) denominator.ne'
    rw [zero_mul]
    exact not_le.mpr (abs_pos.mpr step)
  shrinking := by
    rintro p ⟨⟩

/-- One correction is not enough on the parabola; and a leg that misses by some state after one
correction for each coast misses by the same after a hundred. -/
theorem evaluation_upTo_parabola :
    let leg := (CircularOrbit.transfer true).toLeg
    (1 : Int) ≤ 100 ∧
      (∀ m, (leg.upTo 1).mismatch CircularOrbit.integrator = .ok m →
        (leg.upTo 100).mismatch CircularOrbit.integrator = .ok m) ∧
      ∃ cause, propagate (KeplerConfig.upTo 1 ⟨0, 100⟩) 1 parabola.start 1 =
        .error (.propagation cause) := by
  intro leg
  have fewer : (1 : Int) ≤ 100 := by decide
  obtain ⟨kept, -, -, -, givenUp⟩ :=
    Leg.evaluation_upTo fewer CircularOrbit.integrator leg ⟨0, 100⟩ 1 parabola.start 1
  refine ⟨fewer, kept, (givenUp ?_ ?_ rfl).mpr fun k first => ?_⟩
  · norm_num
  · exact Bool.eq_false_iff.mpr (by simp)
  · obtain rfl : k = 0 := by simpa using first
    exact goesOn_parabola

end Orbit

end Kepler

end LowThrust
