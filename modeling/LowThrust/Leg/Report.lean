import LowThrust.Leg.Evaluation

/-!
The leg in words.
-/

namespace LowThrust

variable {α : Type} [Scalar α] [DecimalText α]

namespace Leg.Report

/-- Numbers to ten digits. -/
def list (xs : List α) : String := "[" ++ ", ".intercalate (xs.map (generalText 10)) ++ "]"

/-- A number at the right of a field of the given width. -/
def right (width n : Nat) : String :=
  let digits := toString n
  "".pushn ' ' (width - digits.length) ++ digits

def spacecraft : Option (Spacecraft α) → List String
  | none => ["Spacecraft: not set"]
  | some sc => [
      "Spacecraft mass: " ++ generalText 10 sc.mass ++ " kg",
      "Spacecraft thrust: " ++ generalText 10 sc.thrust ++ " N",
      "Spacecraft isp: " ++ generalText 10 sc.isp ++ " s"]

def gravity (mu : Option α) : String :=
  "Central body gravitational parameter: " ++
    match mu with
    | none => "not set"
    | some mu => generalText 12 mu ++ " km^3/s^2"

def date (name : String) (epoch : Option (Epoch α)) : String :=
  name ++ " date: " ++ (epoch.map Epoch.text).getD "not set"

def state (name : String) : Option (State α) → List String
  | none => []
  | some s => [name ++ " state: r=" ++ list s.position.toList ++ " km, v=" ++
      list s.velocity.toList ++ " km/s, m=" ++ generalText 10 s.mass ++ " kg"]

def timeOfFlight : Option (Epoch α) → Option (Epoch α) → List String
  | some start, some final => [
      "Time of flight: " ++ generalText 10 (final.daysSince start) ++ " days (" ++
        generalText 10 (final.secondsSince start) ++ " s)"]
  | _, _ => []

def segment (k : Nat) (s : ThrottleSegment α) : String :=
  "  " ++ right 3 k ++ ": " ++ s.start.text ++ " -> " ++ s.final.text ++ "  " ++
    list s.value.toList ++ "  |t|=" ++ generalText 6 s.norm

/-- The mismatch, or why it is unavailable. Faults that are not reported in words stay faults. -/
def mismatch : Except (Fault α) (State α) → Except (Fault α) (List String)
  | .ok m => .ok [
      "Mismatch constraints: " ++ list m.toList,
      "  |dr| = " ++ generalText 6 m.position.norm ++ " km, |dv| = " ++
        generalText 6 m.velocity.norm ++ " km/s, dm = " ++ generalText 6 m.mass ++ " kg"]
  | .error fault => match fault.message? with
    | some message => .ok ["Mismatch constraints: unavailable (" ++ message ++ ")"]
    | none => .error fault

end Leg.Report

namespace Leg

/-- The lines of a report on a leg, of which any part may be missing. -/
def report (integrator : Integrator α) (leg : Leg α) : Except (Fault α) (List String) := do
  let evaluated ← Report.mismatch (leg.mismatch integrator)
  let settings := [
    "High fidelity: " ++ (if leg.highFidelity then "True" else "False"),
    "Number of segments: " ++ toString leg.throttles.length,
    ""]
  let vehicle := Report.spacecraft leg.spacecraft ++ [Report.gravity leg.mu, ""]
  let boundaries :=
    Report.date "Departure" leg.startEpoch :: Report.state "Departure" leg.startState ++
      Report.date "Arrival" leg.finalEpoch :: Report.state "Arrival" leg.finalState ++
      Report.timeOfFlight leg.startEpoch leg.finalEpoch ++ [""]
  let throttles := "Throttles values:" :: leg.throttles.mapIdx Report.segment ++ [""]
  return settings ++ vehicle ++ boundaries ++ throttles ++ evaluated ++
    ["Throttle magnitude constraints: " ++ Report.list leg.constraints]

end Leg

end LowThrust
