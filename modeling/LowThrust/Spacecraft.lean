import LowThrust.Constants
import LowThrust.Fault

/-!
Low-thrust propulsion.
-/

namespace LowThrust

/-- Reference mass in kg, greatest thrust in N and specific impulse in s. -/
structure Spacecraft (α : Type) where
  mass : α
  thrust : α
  isp : α
  deriving DecidableEq

/-- Division where a zero divisor is a fault. -/
def checkedDiv {α : Type} [Scalar α] (x y : α) : Except (Fault α) α :=
  if y == 0.0 then .error .divisionByZero else .ok (x / y)

namespace Spacecraft

variable {α : Type}

/-- In km/s. -/
def exhaustVelocity [Scalar α] (sc : Spacecraft α) : α := sc.isp * standardGravity * kmPerMetre

/-- Propellant used at full thrust, in kg/s. -/
def massFlowRate [Scalar α] (sc : Spacecraft α) : Except (Fault α) α :=
  checkedDiv sc.thrust (sc.isp * standardGravity)

def exactText [DecimalText α] (sc : Spacecraft α) : String :=
  "Spacecraft(mass=" ++ LowThrust.exactText sc.mass ++ ", thrust=" ++
    LowThrust.exactText sc.thrust ++ ", isp=" ++ LowThrust.exactText sc.isp ++ ")"

end Spacecraft

end LowThrust
