import LowThrust.Kepler.Solver
import LowThrust.Leg.Shooting
import LowThrust.Propagation.Trajectory

/-!
What an optimiser asks of a leg: the mismatch at the matching point, the throttle constraints,
whether both are met, and an estimate of the velocity that is spent.
-/

namespace LowThrust

open Scalar

variable {α : Type} [Scalar α]

/-- Velocity in km/s that the thrust would give to the reference mass, without loss of mass. -/
def approximateDeltaV (sc : Spacecraft α) (segments : List (ThrottleSegment α)) :
    Except (Fault α) α := do
  let total ← segments.foldlM (fun total s => do
    return total + (← checkedDiv (s.duration * s.norm * sc.thrust) sc.mass)) 0.0
  return total * kmPerMetre

namespace Transfer

variable (integrator : Integrator α) (t : Transfer α)

def coast : Coast α := Kepler.propagate t.config.kepler t.mu

def thrustArc (p : Propagator α) : ThrustArc α := fun s dt thrust =>
  p.thrustArc integrator s dt ⟨thrust.toList, t.spacecraft.isp⟩

/-- Forward less backward state at the matching point, for a way to coast. -/
def mismatchBy (coast : Coast α) : Except (Fault α) (State α) :=
  if t.highFidelity then do
    let p ← Propagator.create t.mu t.config
    t.shootHighFidelity coast (t.thrustArc integrator p)
  else t.shootImpulsive coast

def mismatch : Except (Fault α) (State α) := t.mismatchBy integrator t.coast

end Transfer

/-- Writing into a list of numbers that the caller holds. -/
abbrev Destination (α : Type) := EStateM (Fault α) (List α)

def checkDestination (evaluation : Evaluation) (expected : Nat) : Destination α Unit := do
  let length := (← get).length
  if length ≠ expected then
    throw (.configuration (.destinationLength evaluation length expected))

/-- One tolerance for every component, or one for each of them. -/
def spreadTolerance (count : Nat) (tol : List α) : Except (Fault α) (List α) :=
  match tol with
  | [a] => .ok (List.replicate count a)
  | _ => if tol.length = count then .ok tol else .error .lengthMismatch

namespace Leg

variable (integrator : Integrator α) (leg : Leg α)

def mismatch : Except (Fault α) (State α) := do
  (← leg.snapshot).mismatch integrator

/-- Positive for a segment whose throttle lies outside the unit ball. -/
def constraints : List α := leg.throttles.map ThrottleSegment.excess

/-- The mismatch into a destination of seven numbers, once all of it is there. -/
def mismatchInto : Destination α Unit := do
  let transfer ← MonadExcept.ofExcept leg.snapshot
  checkDestination .mismatch 7
  let m ← MonadExcept.ofExcept (transfer.mismatch integrator)
  set m.toList

/-- The constraints into a destination of one number for each segment. -/
def constraintsInto : Destination α Unit := do
  checkDestination .constraints leg.throttles.length
  set leg.constraints

/-- The tolerance on each component of the mismatch when none is given. -/
def feasibilityTolerance : α := 1e-8

/-- Whether the mismatch is within the tolerance and no constraint is violated. -/
def isFeasible (tol : List α) : Except (Fault α) Bool := do
  let m ← leg.mismatch integrator
  let tols ← spreadTolerance 7 tol
  return (m.toList.zip tols).all (fun (x, tol) => decide (Scalar.abs x ≤ tol)) &&
    leg.constraints.all fun c => decide (c ≤ 0.0)

def approximateDeltaV : Except (Fault α) α :=
  match leg.spacecraft with
  | some sc => LowThrust.approximateDeltaV sc leg.throttles
  | none => .error (.configuration .noSpacecraft)

end Leg

def Transfer.approximateDeltaV (t : Transfer α) : Except (Fault α) α :=
  LowThrust.approximateDeltaV t.spacecraft t.throttles

end LowThrust
