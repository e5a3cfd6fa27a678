import LowThrust.Spacecraft
import LowThrust.State

/-!
Impulsive maneuvers.
-/

namespace LowThrust

/-- A change of velocity in km/s at an epoch, by components as they are given. With a specific
impulse, in s, it uses up mass. -/
structure Maneuver (α : Type) where
  epoch : Epoch α
  dv : List α
  isp : Option α

namespace Maneuver

variable {α : Type} [Scalar α]

def size (m : Maneuver α) : α := magnitude m.dv

/-- The fraction of mass that is left by the rocket equation. -/
def massRatio (m : Maneuver α) : Except (Fault α) α :=
  match m.isp with
  | none => .ok 1.0
  | some isp => (checkedDiv (-m.size) (isp * standardGravity * kmPerMetre)).map Scalar.exp

def apply (m : Maneuver α) (s : State α) : Except (Fault α) (State α) :=
  match Vec3.spread? m.dv with
  | none => .error .lengthMismatch
  | some dv => do
    let ratio ← m.massRatio
    return ⟨⟨s.position, s.velocity + dv⟩, s.mass * ratio⟩

end Maneuver

end LowThrust
