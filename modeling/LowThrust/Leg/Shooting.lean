import LowThrust.Constants
import LowThrust.Leg.Basic

/-!
Shooting from both ends of a leg to a matching point: the first half of the segments forward from
the start, the other half backward from the end, and a coast between the clocks of the two. How
the spacecraft coasts and how it flies an arc of thrust are parameters.
-/

namespace LowThrust

open Scalar

/-- The motion after so many seconds without thrust. -/
abbrev Coast (α : Type) := Motion α → α → Except (Fault α) (Motion α)

/-- The state after so many seconds of a thrust in N along the axes. -/
abbrev ThrustArc (α : Type) := State α → α → Vec3 α → Except (Fault α) (State α)

/-- A state at a time in seconds since the origin of epochs. -/
structure Flight (α : Type) where
  state : State α
  clock : α

/-- Thrust in N and exhaust velocity in m/s. -/
structure Engine (α : Type) where
  thrust : α
  exhaust : α

variable {α : Type} [Scalar α]

namespace Engine

def ofSpacecraft (sc : Spacecraft α) : Engine α := ⟨sc.thrust, sc.isp * standardGravity⟩

/-- The engine that undoes what the engine does. -/
def reversed (e : Engine α) : Engine α := ⟨-e.thrust, -e.exhaust⟩

/-- The impulse in m/s that stands for the thrust over a segment. -/
def impulse (e : Engine α) (mass : α) (s : ThrottleSegment α) : Vec3 α :=
  e.thrust / mass * s.duration * s.value

/-- The mass after an impulse, by the rocket equation. -/
def massAfter (e : Engine α) (mass : α) (dv : Vec3 α) : α := mass * exp (-dv.norm / e.exhaust)

end Engine

namespace Flight

/-- Coasts to a time. -/
def coastTo (coast : Coast α) (f : Flight α) (clock : α) : Except (Fault α) (Flight α) := do
  let m ← coast f.state.toMotion (clock - f.clock)
  return ⟨⟨m, f.state.mass⟩, clock⟩

/-- Coasts to the middle of a segment and applies its impulse. -/
def impulsive (coast : Coast α) (e : Engine α) (f : Flight α) (s : ThrottleSegment α) :
    Except (Fault α) (Flight α) := do
  let f ← f.coastTo coast s.midpoint
  let dv := e.impulse f.state.mass s
  return { f with
    state := ⟨⟨f.state.position, f.state.velocity + dv * (kmPerMetre : α)⟩,
      e.massAfter f.state.mass dv⟩ }

/-- Coasts to the start of a segment and flies it under thrust. -/
def throughArc (coast : Coast α) (arc : ThrustArc α) (thrust : α) (f : Flight α)
    (s : ThrottleSegment α) : Except (Fault α) (Flight α) := do
  let f ← f.coastTo coast s.start.seconds
  return ⟨← arc f.state s.duration (thrust * s.value), s.final.seconds⟩

/-- Coasts back to the end of a segment and flies it under thrust, backward in time. -/
def backThroughArc (coast : Coast α) (arc : ThrustArc α) (thrust : α) (f : Flight α)
    (s : ThrottleSegment α) : Except (Fault α) (Flight α) := do
  let f ← f.coastTo coast s.final.seconds
  return ⟨← arc f.state (-s.duration) (thrust * s.value), s.start.seconds⟩

/-- The state of a flight that coasts to the clock of another, less the state of the other. -/
def mismatch (coast : Coast α) (forward backward : Flight α) : Except (Fault α) (State α) := do
  let f ← forward.coastTo coast backward.clock
  return f.state - backward.state

end Flight

namespace Transfer

variable (t : Transfer α)

def departure : Flight α := ⟨t.startState, t.startEpoch.seconds⟩

def arrival : Flight α := ⟨t.finalState, t.finalEpoch.seconds⟩

/-- Shooting with an impulse for each segment. -/
def shootImpulsive (coast : Coast α) : Except (Fault α) (State α) := do
  let engine := Engine.ofSpacecraft t.spacecraft
  let forward ← t.forwardSegments.foldlM (Flight.impulsive coast engine) t.departure
  let backward ← t.backwardSegments.foldlM (Flight.impulsive coast engine.reversed) t.arrival
  forward.mismatch coast backward

/-- Shooting with an arc of thrust for each segment. -/
def shootHighFidelity (coast : Coast α) (arc : ThrustArc α) : Except (Fault α) (State α) := do
  let thrust := t.spacecraft.thrust
  let forward ← t.forwardSegments.foldlM (Flight.throughArc coast arc thrust) t.departure
  let backward ← t.backwardSegments.foldlM (Flight.backThroughArc coast arc thrust) t.arrival
  forward.mismatch coast backward

end Transfer

end LowThrust
