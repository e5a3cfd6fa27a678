import LowThrust.Dynamics
import LowThrust.Integrator.Basic
import LowThrust.Propagation.Span

/-!
Numerical propagation: arcs of constant thrust, and coasts with impulsive maneuvers.
-/

namespace LowThrust

/-- A centre of gravitational parameter `mu` and the settings of the integration about it. -/
structure Propagator (α : Type) where
  mu : α
  config : PropagationConfig α

/-- A row of a propagation. -/
structure TrajectoryPoint (α : Type) where
  epoch : Epoch α
  state : State α

/-- The rows of a propagation in the order of time. -/
abbrev Trajectory (α : Type) := List (TrajectoryPoint α)

/-- The last state, if there is one. -/
def Trajectory.final {α : Type} (t : Trajectory α) : Except (Fault α) (State α) :=
  match t.getLast? with
  | some point => .ok point.state
  | none => .error .indexOutOfRange

namespace Propagator

variable {α : Type} [Scalar α]

def create (mu : α) (config : PropagationConfig α) : Except (Fault α) (Propagator α) :=
  if mu > 0.0 then .ok ⟨mu, config⟩ else .error (.configuration (.gravityNotPositive mu))

variable (integrator : Integrator α) (p : Propagator α)

/-- The state after a coast of `dt` seconds; negative, before one. -/
def coast (s : State α) (dt : α) : Except (Fault α) (State α) :=
  if dt == 0.0 then .ok s
  else integrator.final p.config.integrator (State.coastRate p.mu) 0.0 dt s

/-- The state after `dt` seconds of a constant thrust; negative, before them. -/
def thrustArc (s : State α) (dt : α) (thrust : Thrust α) : Except (Fault α) (State α) :=
  if dt == 0.0 then .ok s
  else do
    let axes ← thrust.axes
    integrator.final p.config.integrator (State.thrustRate p.mu axes thrust.massRate) 0.0 dt s

/-- The rows of a span from the state at its start, and the state at its end. A span of no length
has no rows. -/
def coastSpan (outputStep : Option α) (s : State α) (span : Span α) :
    Except (Fault α) (List (α × State α) × State α) :=
  if span.final > span.start then do
    let times ← span.outputTimes outputStep
    let rows ← integrator.sample p.config.integrator (State.coastRate p.mu) span.start span.final
      s times
    return (rows, (rows.getLast?.map Prod.snd).getD s)
  else .ok ([], s)

/-- The rows of spans that follow each other, each ended by its maneuver. -/
def flySpans (outputStep : Option α) (s : State α) :
    List (Span α) → Except (Fault α) (List (α × State α))
  | [] => .ok []
  | span :: spans => do
    let (rows, reached) ← p.coastSpan integrator outputStep s span
    let next ← match span.maneuver with
      | none => pure reached
      | some m => m.apply reached
    return rows ++ (← flySpans outputStep next spans)

/-- A propagation forward in time. Maneuvers outside of it are left out. -/
def propagate (s : State α) (epoch : Epoch α) (duration : α) (maneuvers : List (Maneuver α))
    (outputStep : Option α) : Except (Fault α) (Trajectory α) :=
  if duration > 0.0 then do
    let spans := Span.between epoch duration 0.0 (Maneuver.sort maneuvers)
    let rows ← p.flySpans integrator outputStep s spans
    return rows.map fun (t, state) => ⟨⟨epoch.mjd2000 + t * daysPerSecond⟩, state⟩
  else .error (.configuration (.durationNotPositive duration))

end Propagator

end LowThrust
