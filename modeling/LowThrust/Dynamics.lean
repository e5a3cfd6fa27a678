import LowThrust.Constants
import LowThrust.State

/-!
Equations of motion: gravity of a point mass, and a constant thrust that uses up propellant.
-/

namespace LowThrust

open Scalar

variable {α : Type} [Scalar α]

/-- Acceleration at position `r` by a centre of gravitational parameter `mu`, in km/s². -/
def gravity (mu : α) (r : Vec3 α) : Vec3 α := -mu * r / cube r.norm

/-- A constant thrust in N, by components as they are given, and its specific impulse in s. -/
structure Thrust (α : Type) where
  components : List α
  isp : α

namespace Thrust

/-- Rate of change of mass in kg/s, negative while propellant is used. -/
def massRate (t : Thrust α) : α := -magnitude t.components / (t.isp * standardGravity)

/-- What the components do to a mass, in km/s². -/
def acceleration (t : Thrust α) (mass : α) : List α :=
  t.components.map fun c => c / mass * kmPerMetre

/-- The thrust along each axis. -/
def axes (t : Thrust α) : Except (Fault α) (Vec3 α) :=
  match Vec3.spread? t.components with
  | some v => .ok v
  | none => .error .lengthMismatch

end Thrust

namespace State

/-- Rate of change of a state without thrust. -/
def coastRate (mu : α) (s : State α) : State α :=
  ⟨⟨s.velocity, gravity mu s.position⟩, 0.0⟩

/-- Rate of change under a thrust along the axes, in N, and a rate of change of mass. -/
def thrustRate (mu : α) (axes : Vec3 α) (massRate : α) (s : State α) : State α :=
  ⟨⟨s.velocity, gravity mu s.position + axes / s.mass * (kmPerMetre : α)⟩, massRate⟩

end State

end LowThrust
