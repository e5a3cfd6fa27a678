import LowThrust.Propagation.Trajectory

/-!
Propagations as they are asked for, of which a part may not be set.
-/

namespace LowThrust

structure PropagationRequest (α : Type) where
  state : Option (State α)
  epoch : Option (Epoch α)
  duration : α
  /-- A maneuver whose epoch is not set is absent. -/
  maneuvers : List (Option (Maneuver α)) := []
  outputStep : Option α := none

namespace Propagator

variable {α : Type} [Scalar α] (integrator : Integrator α) (p : Propagator α)

/-- What is not set is missed where it is needed: epochs to put maneuvers on the clock, then the
state, and last the epoch to date the rows by. -/
def answer (r : PropagationRequest α) : Except (Fault α) (Trajectory α) :=
  if r.duration > 0.0 then
    match r.maneuvers.mapM id, r.state, r.epoch with
    | some maneuvers, some s, some epoch =>
      p.propagate integrator s epoch r.duration maneuvers r.outputStep
    | some [], some s, none => do
      let _ ← p.flySpans integrator r.outputStep s [⟨0.0, r.duration, none⟩]
      throw .epochNotSet
    | none, _, _ | some (_ :: _), _, none => .error .epochNotSet
    | some _, none, _ => .error .stateNotSet
  else .error (.configuration (.durationNotPositive r.duration))

end Propagator

end LowThrust
