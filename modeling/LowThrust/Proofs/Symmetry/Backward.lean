import Mathlib
import LowThrust.Leg.Evaluation
import LowThrust.Proofs.Finiteness
import LowThrust.Proofs.Symmetry.Mirror
import LowThrust.Proofs.Symmetry.Transport

/-!
The backward half of a leg as a forward flight. Backward in time, the impulses of a half are those
of an engine that gathers its exhaust instead of spending it, and every one of them comes at the
negated time.
-/

namespace LowThrust

section Definitions

variable {α : Type} [Scalar α]

def Epoch.mirrored (t : Epoch α) : Epoch α := ⟨-t.mjd2000⟩

/-- Backward in time a segment starts where it ends. -/
def ThrottleSegment.mirrored (s : ThrottleSegment α) : ThrottleSegment α :=
  ⟨s.final.mirrored, s.start.mirrored, s.value⟩

def Flight.mirrored (f : Flight α) : Flight α :=
  ⟨⟨f.state.toMotion.mirrored, f.state.mass⟩, -f.clock⟩

/-- The engine that thrusts as before and gathers what it would exhaust. -/
def Engine.gathering (e : Engine α) : Engine α := ⟨e.thrust, -e.exhaust⟩

/-- Negated times lead to the mirrored motions, or to faults that name negated times. -/
def Coast.IsMirrored (coast : Coast α) : Prop :=
  ∀ m dt, coast m.mirrored (-dt) = ((coast m dt).map Motion.mirrored).mapError Fault.mirrored

end Definitions

namespace ThrottleSegment

variable (s : ThrottleSegment ℝ)

@[simp] theorem duration_mirrored : s.mirrored.duration = s.duration := by
  simp only [duration, Epoch.secondsSince, mirrored, Epoch.mirrored]
  ring

@[simp] theorem midpoint_mirrored : s.mirrored.midpoint = -s.midpoint := by
  simp only [midpoint, mirrored, Epoch.mirrored, Exact.literal_two]
  ring

end ThrottleSegment

/-! ### Steps of both flights -/

instance : Scalar.CancelsSigns ℝ := ⟨neg_div_neg_eq⟩

section Steps

variable {α : Type} [Scalar α] [Scalar.CancelsSigns α] (coast : Coast α) (e : Engine α)

/-- Backward in time the exponent of the rocket equation has the other sign. -/
theorem Engine.massAfter_reversed (mass : α) (dv : Vec3 α) :
    e.reversed.massAfter mass dv = mass * Scalar.exp (dv.norm / e.exhaust) := by
  rw [massAfter, reversed, Scalar.CancelsSigns.neg_div_neg]

theorem Engine.massAfter_gathering (mass : α) (dv : Vec3 α) :
    e.gathering.massAfter mass dv = mass * Scalar.exp (dv.norm / e.exhaust) := by
  rw [massAfter, gathering, Scalar.CancelsSigns.neg_div_neg]

/-- A step of the backward half, by the opposite thrust and the opposite exponent. -/
theorem Flight.impulsive_reversed (f : Flight α) (s : ThrottleSegment α) :
    f.impulsive coast e.reversed s = do
      let f ← f.coastTo coast s.midpoint
      let dv : Vec3 α := -e.thrust / f.state.mass * s.duration * s.value
      return { f with
        state := ⟨⟨f.state.position, f.state.velocity + dv * (kmPerMetre : α)⟩,
          f.state.mass * Scalar.exp (dv.norm / e.exhaust)⟩ } := by
  simp only [impulsive, Engine.massAfter_reversed]
  rfl

theorem Flight.impulsive_gathering (f : Flight α) (s : ThrottleSegment α) :
    f.impulsive coast e.gathering s = do
      let f ← f.coastTo coast s.midpoint
      let dv : Vec3 α := e.thrust / f.state.mass * s.duration * s.value
      return { f with
        state := ⟨⟨f.state.position, f.state.velocity + dv * (kmPerMetre : α)⟩,
          f.state.mass * Scalar.exp (dv.norm / e.exhaust)⟩ } := by
  simp only [impulsive, Engine.massAfter_gathering]
  rfl

end Steps

namespace Flight

@[simp] theorem mirrored_mirrored (f : Flight ℝ) : f.mirrored.mirrored = f := by
  simp only [mirrored, Motion.mirrored, Vec3.neg_neg_real, neg_neg]

variable {coast : Coast ℝ} (hc : coast.IsMirrored)

include hc

theorem coastTo_mirrored (f : Flight ℝ) (clock : ℝ) :
    f.mirrored.coastTo coast (-clock) =
      ((f.coastTo coast clock).map mirrored).mapError Fault.mirrored := by
  have elapsed : -clock - f.mirrored.clock = -(clock - f.clock) := by
    change -clock - -f.clock = _
    ring
  rw [coastTo, elapsed, coastTo]
  exact bind_transport (hc f.state.toMotion (clock - f.clock)) fun m => rfl

theorem impulsive_mirrored (e : Engine ℝ) (f : Flight ℝ) (s : ThrottleSegment ℝ) :
    f.mirrored.impulsive coast e.gathering s.mirrored =
      ((f.impulsive coast e.reversed s).map mirrored).mapError Fault.mirrored := by
  rw [impulsive_gathering, ThrottleSegment.midpoint_mirrored, impulsive_reversed]
  refine bind_transport (coastTo_mirrored hc f s.midpoint) fun f => ?_
  have mass : f.mirrored.state.mass = f.state.mass := rfl
  have opposite (a : ℝ) : -e.thrust / f.state.mass * a * s.value =
      -(e.thrust / f.state.mass * a * s.value) := by
    rw [← Vec3.neg_smul_real, neg_div, neg_mul]
  have velocity (dv : Vec3 ℝ) : f.mirrored.state.velocity + dv * (kmPerMetre : ℝ) =
      -(f.state.velocity + -dv * (kmPerMetre : ℝ)) := by
    rw [← Vec3.neg_add_neg_real, Vec3.neg_mul_real, Vec3.neg_neg_real]
    rfl
  simp only [mass, ThrottleSegment.duration_mirrored, opposite, Vec3.norm_neg_real, velocity]
  rfl

/-- A flight through the mirrored segments, in the same order, is the mirrored flight. -/
theorem foldlM_mirrored (e : Engine ℝ) (f : Flight ℝ) (segments : List (ThrottleSegment ℝ)) :
    (segments.map ThrottleSegment.mirrored).foldlM (impulsive coast e.gathering) f.mirrored =
      ((segments.foldlM (impulsive coast e.reversed) f).map mirrored).mapError Fault.mirrored :=
  foldlM_transport (impulsive_mirrored hc e) f segments

omit hc

/-- The backward half of a leg is the time mirror of a forward half that gathers exhaust. Segments
from the last one on lead backward in time to a state exactly if the mirrored ones lead forward to
the state with negated velocity, and one flight is given up exactly if the other is. -/
theorem backward_iff_forward (config : KeplerConfig ℝ) (mu : ℝ) (sc : Spacecraft ℝ)
    (segments : List (ThrottleSegment ℝ)) (r v : Vec3 ℝ) (m t : ℝ) :
    let coast := Kepler.propagate config mu
    let engine := Engine.ofSpacecraft sc
    let backward := segments.reverse.foldlM (impulsive coast engine.reversed) ⟨⟨⟨r, v⟩, m⟩, t⟩
    let forward := (segments.reverse.map ThrottleSegment.mirrored).foldlM
      (impulsive coast engine.gathering) ⟨⟨⟨r, -v⟩, m⟩, -t⟩
    (∀ r' v' m' t', backward = .ok ⟨⟨⟨r', v'⟩, m'⟩, t'⟩ ↔
      forward = .ok ⟨⟨⟨r', -v'⟩, m'⟩, -t'⟩) ∧
    ((∃ cause, backward = .error (.propagation cause)) ↔
      ∃ cause, forward = .error (.propagation cause)) := by
  intro coast engine backward forward
  have mirror : Coast.IsMirrored coast := Kepler.propagate_mirrored config mu
  have image : forward = (backward.map mirrored).mapError Fault.mirrored :=
    foldlM_mirrored mirror engine ⟨⟨⟨r, v⟩, m⟩, t⟩ segments.reverse
  have injective : Function.Injective (mirrored : Flight ℝ → Flight ℝ) :=
    Function.Involutive.injective mirrored_mirrored
  rw [image]
  constructor
  · intro r' v' m' t'
    change _ ↔ _ = Except.ok (mirrored ⟨⟨⟨r', v'⟩, m'⟩, t'⟩)
    cases backward with
    | error => simp [Except.map, Except.mapError]
    | ok f => simp [Except.map, Except.mapError, injective.eq_iff]
  · cases backward with
    | ok => simp [Except.map, Except.mapError]
    | error fault => cases fault <;> simp [Except.map, Except.mapError, Fault.mirrored]

end Flight

end LowThrust
