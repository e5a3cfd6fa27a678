import LowThrust.Json.Parser
import LowThrust.Json.Printer
import LowThrust.Leg.Edit

/-!
Legs as JSON documents. A document holds every field of a complete leg and the version of its
format; a leg is rebuilt from it by the checks that every leg is set up with.
-/

namespace LowThrust

variable {α : Type}

namespace ThrottleSegment

def members (s : ThrottleSegment α) : List (String × Json α) := [
  ("start", .real s.start.mjd2000),
  ("end", .real s.final.mjd2000),
  ("value", .arr (s.value.toList.map .real))]

def toJson (s : ThrottleSegment α) : Json α := .object s.members

end ThrottleSegment

namespace Spacecraft

def members (sc : Spacecraft α) : List (String × Json α) :=
  [("mass", .real sc.mass), ("thrust", .real sc.thrust), ("isp", .real sc.isp)]

def toJson (sc : Spacecraft α) : Json α := .object sc.members

end Spacecraft

namespace State

def toJson (s : State α) : Json α := .arr (s.toList.map .real)

end State

namespace Transfer

def members (t : Transfer α) : List (String × Json α) := [
  ("version", .int formatVersion),
  ("t_i", .real t.startEpoch.mjd2000),
  ("x_i", t.startState.toJson),
  ("throttles", .arr (t.throttles.map ThrottleSegment.toJson)),
  ("t_f", .real t.finalEpoch.mjd2000),
  ("x_f", t.finalState.toJson),
  ("spacecraft", t.spacecraft.toJson),
  ("mu", .real t.mu),
  ("high_fidelity", .bool t.highFidelity)]

def toJson (t : Transfer α) : Json α := .object t.members

end Transfer

namespace Leg.Document

variable [Scalar α] [DecimalText α]

/-- A fault of a value in a document. Integers that are too large keep their own kind. -/
def numberFault : NumberFault → Fault α
  | .tooLarge => .number .tooLarge
  | _ => .configuration .malformedDocument

def malformed {β : Type} : Except (Fault α) β := .error (.configuration .malformedDocument)

/-- A member of an object that has to be there. -/
def member (name : String) : Json α → Except (Fault α) (Json α)
  | .obj members => match Json.lookup members name with
    | some value => .ok value
    | none => .error (.configuration (.memberMissing name))
  | _ => malformed

def number (name : String) (j : Json α) : Except (Fault α) α := do
  (← member name j).toNumber.mapError numberFault

def tensor (j : Json α) : Except (Fault α) (Tensor α) := j.toTensor.mapError numberFault

def epoch (name : String) (j : Json α) : Except (Fault α) (Epoch α) := return ⟨← number name j⟩

def state (name : String) (j : Json α) : Except (Fault α) (State α) := do
  State.ofTensor (← tensor (← member name j))

def segment (j : Json α) : Except (Fault α) (ThrottleSegment α) := do
  let start ← epoch "start" j
  let final ← epoch "end" j
  let value ← member "value" j
  ThrottleSegment.ofTensor start final (← tensor value)

/-- A list of segments. What holds no items counts as an empty list. -/
def segments : Json α → Except (Fault α) (List (ThrottleSegment α))
  | .arr items => items.mapM segment
  | .obj [] => .ok []
  | .str [] => .ok []
  | _ => malformed

def spacecraft (j : Json α) : Except (Fault α) (Spacecraft α) := do
  let mass ← number "mass" j
  let thrust ← number "thrust" j
  let isp ← number "isp" j
  return ⟨mass, thrust, isp⟩

/-- The mode of evaluation, if it is given. -/
def mode (members : List (List Nat × Json α)) : Option Bool :=
  match Json.lookup members "high_fidelity" with
  | none | some .null => none
  | some flag => some flag.isTruthy

/-- Versions are integers, for which true counts as one. -/
def isSupported : Json α → Bool
  | .int n => 1 ≤ n ∧ n ≤ formatVersion
  | .bool b => b
  | _ => false

/-- What the members of a document set, in the order in which they are read. -/
def setup (members : List (List Nat × Json α)) : Except (Fault α) (LegSetup α) := do
  let j := Json.obj members
  let throttles ← segments (← member "throttles" j)
  let spacecraft ← spacecraft (← member "spacecraft" j)
  let startEpoch ← epoch "t_i" j
  let finalEpoch ← epoch "t_f" j
  let startState ← state "x_i" j
  let finalState ← state "x_f" j
  let mu ← number "mu" j
  return ⟨startEpoch, startState, throttles, finalEpoch, finalState, mu, spacecraft, mode members⟩

end Leg.Document

namespace Leg

/-- The document of a complete leg. -/
def toJson (leg : Leg α) : Except (Fault α) (Json α) := return (← leg.snapshot).toJson

variable [Scalar α] [DecimalText α]

/-- The leg that a document describes. -/
def ofJson (config : PropagationConfig α) (document : Json α) : Except (Fault α) (Leg α) :=
  match document with
  | .obj members =>
    let version := (Json.lookup members "version").getD .null
    if Document.isSupported version then do
      let setup ← Document.setup members
      match (configure setup).run (.empty config) with
      | .ok _ leg => .ok leg
      | .error fault _ => .error fault
    else .error (.configuration (.unsupportedVersion version))
  | _ => .error (.configuration (.documentNotObject document))

/-- The text of the leg's document. -/
def print (style : Json.Style) (leg : Leg α) : Except (Fault α) (List Char) :=
  return (← leg.toJson).print style

/-- The leg that a text describes. -/
def parse (config : PropagationConfig α) (text : List Char) : Except (Fault α) (Leg α) := do
  ofJson config (← (Json.parse text).mapError .json)

/-- How legs are saved. -/
def fileStyle : Json.Style := { indent := some 2 }

/-- Replaces the leg by one that a text describes. The settings stay. -/
def load (text : List Char) : LegEdit α Unit := do
  set (← MonadExcept.ofExcept (parse (← get).config text))

/-- Saves the leg and loads what has been saved. -/
def reload : LegEdit α Unit := do
  load (← MonadExcept.ofExcept ((← get).print fileStyle))

end Leg

end LowThrust
