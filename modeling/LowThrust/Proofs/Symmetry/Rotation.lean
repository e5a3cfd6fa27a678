import Mathlib
import LowThrust.Proofs.Leg.Exchange
import LowThrust.Proofs.Shooting.Reference
import LowThrust.Proofs.Symmetry.Isometry
import LowThrust.Proofs.Symmetry.Transport

/-!
Legs in a turned or mirrored frame. Shooting with impulses goes through the turned states, flight by
flight, so that it fails where it failed before and otherwise misses by the turned mismatch.
-/

namespace LowThrust

namespace Isometry

variable {α : Type} [Scalar α] (Q : Isometry α)

def state (s : State α) : State α := ⟨Q.motion s.toMotion, s.mass⟩

def segment (s : ThrottleSegment α) : ThrottleSegment α := { s with value := Q s.value }

def flight (f : Flight α) : Flight α := ⟨Q.state f.state, f.clock⟩

def transfer (t : Transfer α) : Transfer α :=
  { t with
    startState := Q.state t.startState
    throttles := t.throttles.map Q.segment
    finalState := Q.state t.finalState }

def leg (leg : Leg α) : Leg α :=
  { leg with
    startState := leg.startState.map Q.state
    throttles := leg.throttles.map Q.segment
    finalState := leg.finalState.map Q.state }

theorem state_sub (s t : State α) : Q.state (s - t) = Q.state s - Q.state t := by
  have position : Q (s.position - t.position) = Q s.position - Q t.position := Q.map_sub _ _
  have velocity : Q (s.velocity - t.velocity) = Q s.velocity - Q t.velocity := Q.map_sub _ _
  change State.mk ⟨Q (s.position - t.position), Q (s.velocity - t.velocity)⟩ (s.mass - t.mass) = _
  rw [position, velocity]
  rfl

theorem excess_segment (s : ThrottleSegment α) : (Q.segment s).excess = s.excess := by
  rw [ThrottleSegment.excess, segment, Q.dot_map, ThrottleSegment.excess]

theorem norm_segment (s : ThrottleSegment α) : (Q.segment s).norm = s.norm := Q.norm_map _

theorem impulse_segment (e : Engine α) (mass : α) (s : ThrottleSegment α) :
    e.impulse mass (Q.segment s) = Q (e.impulse mass s) :=
  (Q.map_smul _ _).symm

end Isometry

/-! ### Flights -/

/-- A coast from a carried motion ends in the carried motion. -/
def Coast.Commutes {α : Type} [Scalar α] (coast : Coast α) (Q : Isometry α) : Prop :=
  ∀ m dt, coast (Q.motion m) dt = (coast m dt).map Q.motion

namespace Flight

variable {α : Type} [Scalar α] {Q : Isometry α} {coast : Coast α}

theorem coastTo_flight (hc : coast.Commutes Q) (f : Flight α) (clock : α) :
    (Q.flight f).coastTo coast clock = (f.coastTo coast clock).map Q.flight := by
  have carried : coast (Q.flight f).state.toMotion (clock - f.clock) =
      (coast f.state.toMotion (clock - f.clock)).map Q.motion := hc _ _
  rw [coastTo, coastTo]
  exact bind_map carried fun m => rfl

theorem impulsive_flight (hc : coast.Commutes Q) (e : Engine α) (f : Flight α)
    (s : ThrottleSegment α) :
    (Q.flight f).impulsive coast e (Q.segment s) = (f.impulsive coast e s).map Q.flight := by
  rw [impulsive, impulsive]
  refine bind_map (coastTo_flight hc f s.midpoint) fun f => ?_
  have mass : (Q.flight f).state.mass = f.state.mass := rfl
  have velocity (dv : Vec3 α) : (Q.flight f).state.velocity + Q dv * (kmPerMetre : α) =
      Q (f.state.velocity + dv * (kmPerMetre : α)) := by
    rw [Q.map_add, Q.map_mul]
    rfl
  simp only [mass, Q.impulse_segment, velocity, Engine.massAfter, Q.norm_map]
  rfl

theorem mismatch_flight (hc : coast.Commutes Q) (f g : Flight α) :
    (Q.flight f).mismatch coast (Q.flight g) = (f.mismatch coast g).map Q.state := by
  rw [mismatch, mismatch]
  refine bind_map (coastTo_flight hc f g.clock) fun h => ?_
  change Except.ok (Q.state h.state - Q.state g.state) = .ok (Q.state (h.state - g.state))
  rw [Q.state_sub]

end Flight

/-! ### Whole legs -/

namespace Transfer

variable {α : Type} [Scalar α] (Q : Isometry α) (t : Transfer α)

theorem shootImpulsive_transfer {Q : Isometry α} {coast : Coast α} (hc : coast.Commutes Q) :
    (Q.transfer t).shootImpulsive coast = (t.shootImpulsive coast).map Q.state :=
  halves_map (Flight.impulsive_flight hc _) (Flight.impulsive_flight hc _)
    (Flight.mismatch_flight hc) rfl rfl rfl

theorem mismatch_isometry (integrator : Integrator α) (hf : t.highFidelity = false) :
    (Q.transfer t).mismatch integrator = (t.mismatch integrator).map Q.state := by
  have impulsive : ∀ t : Transfer α, t.highFidelity = false →
      t.mismatch integrator = t.shootImpulsive t.coast := by
    intro t hf
    simp [mismatch, mismatchBy, hf]
  have commutes : t.coast.Commutes Q := Kepler.propagate_motion Q t.config.kepler t.mu
  rw [impulsive _ hf, impulsive (Q.transfer t) hf]
  exact shootImpulsive_transfer t commutes

end Transfer

namespace Leg

variable {α : Type} [Scalar α] (Q : Isometry α) (leg : Leg α)

theorem snapshot_leg : (Q.leg leg).snapshot = leg.snapshot.map Q.transfer := by
  obtain ⟨_, _ | _, _ | _, _, _ | _, _ | _, _ | _, _ | _, _⟩ := leg <;> rfl

theorem mismatch_leg (integrator : Integrator α) (hf : leg.highFidelity = false) :
    (Q.leg leg).mismatch integrator = (leg.mismatch integrator).map Q.state := by
  rw [mismatch, snapshot_leg, mismatch]
  cases h : leg.snapshot with
  | error => rfl
  | ok t =>
    obtain rfl := eq_toLeg_of_snapshot h
    exact Transfer.mismatch_isometry Q t integrator hf

theorem constraints_leg : (Q.leg leg).constraints = leg.constraints := by
  rw [constraints, Isometry.leg, List.map_map, constraints]
  exact List.map_congr_left fun s _ => Q.excess_segment s

theorem approximateDeltaV_leg : (Q.leg leg).approximateDeltaV = leg.approximateDeltaV := by
  have total (sc : Spacecraft α) (segments : List (ThrottleSegment α)) :
      LowThrust.approximateDeltaV sc (segments.map Q.segment) =
        LowThrust.approximateDeltaV sc segments := by
    simp only [LowThrust.approximateDeltaV, List.foldlM_map, Q.norm_segment]
    rfl
  obtain ⟨_, _, _, _, _, _, _ | sc, _, _⟩ := leg
  · rfl
  · exact total sc _

end Leg

/-! ### Orthogonal matrices -/

namespace Vec3

def coordinates (v : Vec3 ℝ) : Fin 3 → ℝ := ![v.x, v.y, v.z]

def ofCoordinates (w : Fin 3 → ℝ) : Vec3 ℝ := ⟨w 0, w 1, w 2⟩

@[simp] theorem coordinates_ofCoordinates (w : Fin 3 → ℝ) : (ofCoordinates w).coordinates = w := by
  funext i
  fin_cases i <;> rfl

theorem dot_eq_dotProduct (u v : Vec3 ℝ) : u.dot v = u.coordinates ⬝ᵥ v.coordinates := by
  simp [dot_real, coordinates, dotProduct, Fin.sum_univ_three]

/-- The product of a matrix and a vector. -/
def transform (A : Matrix (Fin 3) (Fin 3) ℝ) (v : Vec3 ℝ) : Vec3 ℝ :=
  ofCoordinates (A.mulVec v.coordinates)

end Vec3

namespace Isometry

open Matrix

/-- A rotation of space, or one followed by a reflection. -/
def ofOrthogonal (A : orthogonalGroup (Fin 3) ℝ) : Isometry ℝ where
  toFun := Vec3.transform A
  map_add u v := by
    have sum : (u + v).coordinates = u.coordinates + v.coordinates := by
      funext i
      fin_cases i <;> rfl
    rw [Vec3.transform, sum, mulVec_add]
    rfl
  map_sub u v := by
    have difference : (u - v).coordinates = u.coordinates - v.coordinates := by
      funext i
      fin_cases i <;> rfl
    rw [Vec3.transform, difference, mulVec_sub]
    rfl
  map_smul a v := by
    have multiple : (a * v).coordinates = a • v.coordinates := by
      funext i
      fin_cases i <;> rfl
    rw [Vec3.transform, multiple, mulVec_smul]
    rfl
  map_mul v a := by
    have multiple : (v * a).coordinates = MulOpposite.op a • v.coordinates := by
      funext i
      fin_cases i <;> rfl
    rw [Vec3.transform, multiple, mulVec_smul]
    rfl
  map_nan := by
    have zero : (Vec3.nan : Vec3 ℝ).coordinates = 0 := by
      funext i
      fin_cases i <;> rfl
    rw [Vec3.transform, zero, mulVec_zero]
    rfl
  dot_map u v := by
    have orthogonal : (A : Matrix (Fin 3) (Fin 3) ℝ)ᵀ * A = 1 :=
      (mem_orthogonalGroup_iff' _ _).mp A.2
    rw [Vec3.dot_eq_dotProduct, Vec3.transform, Vec3.transform, Vec3.coordinates_ofCoordinates,
      Vec3.coordinates_ofCoordinates, dotProduct_mulVec, ← mulVec_transpose, mulVec_mulVec,
      orthogonal, one_mulVec, Vec3.dot_eq_dotProduct]

end Isometry

namespace Leg

/-- In a turned or mirrored frame the evaluation fails with the same fault, or it succeeds with the
turned mismatch; the constraints and the estimate of the velocity that is spent do not change. -/
theorem evaluation_ofOrthogonal (A : Matrix.orthogonalGroup (Fin 3) ℝ) (integrator : Integrator ℝ)
    {leg : Leg ℝ} (hf : leg.highFidelity = false) :
    let Q := Isometry.ofOrthogonal A
    (∀ fault, (Q.leg leg).mismatch integrator = .error fault ↔
      leg.mismatch integrator = .error fault) ∧
    (∀ r v m, leg.mismatch integrator = .ok ⟨⟨r, v⟩, m⟩ →
      (Q.leg leg).mismatch integrator = .ok ⟨⟨r.transform A, v.transform A⟩, m⟩) ∧
    (Q.leg leg).constraints = leg.constraints ∧
    (Q.leg leg).approximateDeltaV = leg.approximateDeltaV := by
  intro Q
  have image := mismatch_leg Q leg integrator hf
  refine ⟨fun fault => ?_, fun r v m found => ?_, constraints_leg Q leg,
    approximateDeltaV_leg Q leg⟩
  · rw [image]
    cases leg.mismatch integrator <;> simp [Except.map]
  · rw [image, found]
    rfl

end Leg

namespace CircularOrbit

/-- A quarter of a turn about the third axis, which is reversed. -/
noncomputable def turnedOver : Matrix.orthogonalGroup (Fin 3) ℝ :=
  ⟨!![0, -1, 0; 1, 0, 0; 0, 0, -1], by
    rw [Matrix.mem_orthogonalGroup_iff]
    ext i j
    fin_cases i <;> fin_cases j <;> simp [Matrix.mul_apply, Fin.sum_univ_three]⟩

theorem transform_turnedOver (v : Vec3 ℝ) : v.transform turnedOver = ⟨-v.y, v.x, -v.z⟩ := by
  simp [Vec3.transform, Vec3.ofCoordinates, Vec3.coordinates, turnedOver, Matrix.mulVec, dotProduct,
    Fin.sum_univ_three]

/-- Impulses along all three axes, seen from below and a quarter of a turn away. -/
theorem evaluation_overlappingTransfer :
    let leg := overlappingTransfer.toLeg
    let turned := (Isometry.ofOrthogonal turnedOver).leg leg
    (leg.highFidelity = false ∧ leg.missing = []) ∧
      (∀ fault, turned.mismatch coastIntegrator = .error fault ↔
        leg.mismatch coastIntegrator = .error fault) ∧
      (∀ r v m, leg.mismatch coastIntegrator = .ok ⟨⟨r, v⟩, m⟩ →
        turned.mismatch coastIntegrator = .ok ⟨⟨⟨-r.y, r.x, -r.z⟩, ⟨-v.y, v.x, -v.z⟩⟩, m⟩) ∧
      turned.constraints = leg.constraints ∧ turned.approximateDeltaV = leg.approximateDeltaV := by
  intro leg turned
  have impulsive : leg.highFidelity = false := rfl
  have evaluated := Leg.evaluation_ofOrthogonal turnedOver coastIntegrator impulsive
  simp only [transform_turnedOver] at evaluated
  exact ⟨⟨impulsive, rfl⟩, evaluated⟩

end CircularOrbit

end LowThrust
