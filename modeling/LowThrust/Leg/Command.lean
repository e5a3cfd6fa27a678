import LowThrust.Leg.Document

/-!
The changes of a leg as data, so that a history of a leg is a list of them.
-/

namespace LowThrust

inductive LegCommand (α : Type) where
  | configure (setup : LegSetup α)
  | setStartEpoch (t : Option (Epoch α))
  | setStartState (s : Option (State α))
  | setFinalEpoch (t : Option (Epoch α))
  | setFinalState (s : Option (State α))
  | setSpacecraft (sc : Option (Spacecraft α))
  | setMu (mu : α)
  | setHighFidelity (flag : Bool)
  | setThrottles (source : SegmentSource α)
  | resize (size : Int)
  | setThrottle (index : Int) (segment : ThrottleSegment α)
  | load (text : List Char)
  | reload

namespace LegCommand

variable {α : Type} [Scalar α] [DecimalText α]

def edit : LegCommand α → LegEdit α Unit
  | configure setup => discard (Leg.configure setup)
  | setStartEpoch t => Leg.setStartEpoch t
  | setStartState s => Leg.setStartState s
  | setFinalEpoch t => Leg.setFinalEpoch t
  | setFinalState s => Leg.setFinalState s
  | setSpacecraft sc => Leg.setSpacecraft sc
  | setMu mu => Leg.setMu mu
  | setHighFidelity flag => Leg.setHighFidelity flag
  | setThrottles source => Leg.setThrottles source
  | resize size => Leg.resize size
  | setThrottle index segment => Leg.setThrottle index segment
  | load text => Leg.load text
  | reload => Leg.reload

/-- What becomes of a command, and the leg after it, also when it fails. -/
def run (c : LegCommand α) (leg : Leg α) : Except (Fault α) Unit × Leg α :=
  match c.edit.run leg with
  | .ok _ leg => (.ok (), leg)
  | .error fault leg => (.error fault, leg)

/-- The leg after a history of commands. Failing ones are passed over. -/
def runAll (leg : Leg α) (commands : List (LegCommand α)) : Leg α :=
  commands.foldl (fun leg c => (c.run leg).2) leg

end LegCommand

end LowThrust
