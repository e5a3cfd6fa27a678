import LowThrust.Epoch
import LowThrust.Tensor
import LowThrust.Json.Parser
import LowThrust.Json.Shown

/-!
What can go wrong, by cause, and the wording of those causes that are reported in words.
-/

namespace LowThrust

/-- Quantities that are given by a fixed number of components. -/
inductive Quantity where
  | position
  | velocity
  | throttleValue
  deriving DecidableEq, Repr

/-- The fields without which a leg is not evaluated. -/
inductive LegField where
  | startEpoch
  | startState
  | finalEpoch
  | finalState
  | spacecraft
  | gravity
  deriving DecidableEq, Repr

/-- The results that are written into a destination. -/
inductive Evaluation where
  | mismatch
  | constraints
  deriving DecidableEq, Repr

/-- A leg, or what is asked of it, is not set up properly. -/
inductive Misconfiguration (α : Type) where
  | componentCount (quantity : Quantity) (count : Nat)
  | stateShape (shape : List Nat)
  | gravityNotPositive (mu : α)
  | durationNotPositive (duration : α)
  | epochOrder (start final : Epoch α)
  | throttleVectorLength (length : Nat)
  | throttleListSize (size : Int)
  | fieldsMissing (fields : List LegField)
  | noSpacecraft
  | destinationLength (evaluation : Evaluation) (length expected : Nat)
  | segmentReversed (index : Nat) (start final : Epoch α)
  | firstSegmentStart (segment leg : Epoch α)
  | lastSegmentEnd (segment leg : Epoch α)
  | gap (days : α) (index : Nat)
  | overlap (days : α) (index : Nat)
  | documentNotObject (document : Json α)
  | unsupportedVersion (version : Json α)
  | memberMissing (name : String)
  | malformedDocument

/-- A propagation from finite inputs that gives no result. -/
inductive PropagationFault (α : Type) where
  /-- The last step is absent when no iteration was allowed. -/
  | keplerNotConverged (iterations : Int) (dt alpha : α) (lastStep : Option α)
  | stepTooSmall (start final : α)

/-- What an integrator refuses to start with. -/
inductive IntegratorRefusal where
  | unknownMethod
  | stateNotFinite
  | maxStepNotPositive
  | negativeTolerance
  | outputTimes
  /-- The number of steps that may be taken is used up. -/
  | endless
  deriving DecidableEq, Repr

inductive Fault (α : Type) where
  | configuration (cause : Misconfiguration α)
  | propagation (cause : PropagationFault α)
  | refused (cause : IntegratorRefusal)
  | number (cause : NumberFault)
  | json (cause : Json.ReadError)
  | divisionByZero
  | indexOutOfRange
  /-- The number of components is neither that of a vector nor one. -/
  | lengthMismatch
  /-- Output times that no list holds. -/
  | outputStep
  /-- An epoch that is not set is compared with another or counted from. -/
  | epochNotSet
  /-- A state that is not set is propagated. -/
  | stateNotSet
  /-- A time of flight between epochs of which one is not set. -/
  | noTimeOfFlight

namespace Quantity

def name : Quantity → String
  | position => "position"
  | velocity => "velocity"
  | throttleValue => "throttle value"

end Quantity

namespace LegField

def name : LegField → String
  | startEpoch => "t_i"
  | startState => "x_i"
  | finalEpoch => "t_f"
  | finalState => "x_f"
  | spacecraft => "spacecraft"
  | gravity => "mu"

end LegField

namespace Evaluation

def name : Evaluation → String
  | mismatch => "Mismatch"
  | constraints => "Throttle constraint"

end Evaluation

/-- A shape in parentheses; that of one axis ends in a comma. -/
def shapeText : List Nat → String
  | [n] => "(" ++ toString n ++ ",)"
  | ns => "(" ++ ", ".intercalate (ns.map toString) ++ ")"

/-- The versions of the document format that are read. -/
def formatVersion : Nat := 1

variable {α : Type} [DecimalText α]

namespace Misconfiguration

def message : Misconfiguration α → String
  | componentCount quantity count =>
    quantity.name ++ " must have 3 components, got " ++ toString count
  | stateShape shape => "state vector must have 7 components, got shape " ++ shapeText shape
  | gravityNotPositive mu => "Gravitational parameter must be positive, got " ++ exactText mu
  | durationNotPositive duration =>
    "Propagation duration must be positive, got " ++ exactText duration
  | epochOrder start final =>
    "Final epoch (" ++ final.text ++ ") must be after the initial epoch (" ++ start.text ++ ")"
  | throttleVectorLength length =>
    "Throttle vector length must be a multiple of 3, got " ++ toString length
  | throttleListSize size => "Throttle list size must be >= 0, got " ++ toString size
  | fieldsMissing fields =>
    "Leg is not fully configured, missing: " ++ ", ".intercalate (fields.map LegField.name)
  | noSpacecraft => "Leg has no spacecraft"
  | destinationLength evaluation length expected =>
    evaluation.name ++ " destination has length " ++ toString length ++ ", expected " ++
      toString expected
  | segmentReversed index start final =>
    "Segment " ++ toString index ++ " ends (" ++ final.text ++ ") before it starts (" ++
      start.text ++ ")"
  | firstSegmentStart segment leg =>
    "First segment starts at " ++ segment.text ++ ", leg starts at " ++ leg.text
  | lastSegmentEnd segment leg =>
    "Last segment ends at " ++ segment.text ++ ", leg ends at " ++ leg.text
  | gap days index =>
    "Gap of " ++ generalText 6 days ++ " days between segments " ++ toString index ++ " and " ++
      toString (index + 1)
  | overlap days index =>
    "Overlap of " ++ generalText 6 days ++ " days between segments " ++ toString index ++
      " and " ++ toString (index + 1)
  | documentNotObject document => "Leg payload must be a JSON object, got " ++ document.kindName
  | unsupportedVersion version =>
    "Unsupported leg format version " ++ String.ofList version.shown ++ " (supported: 1.." ++
      toString formatVersion ++ ")"
  | memberMissing name => "Leg payload is missing field '" ++ name ++ "'"
  | malformedDocument => "Malformed leg payload"

end Misconfiguration

namespace PropagationFault

def message : PropagationFault α → String
  | keplerNotConverged iterations dt alpha lastStep =>
    "Kepler solver did not converge in " ++ toString iterations ++ " iterations (dt=" ++
      generalText 6 dt ++ " s, alpha=" ++ generalText 6 alpha ++ " 1/km, last step=" ++
      (lastStep.map (generalText 3)).getD "inf" ++ ")"
  | stepTooSmall start final =>
    "Integration failed: Required step size is less than spacing between numbers. (t_start=" ++
      fixedText 1 start ++ ", t_end=" ++ fixedText 1 final ++ ")"

end PropagationFault

namespace Fault

/-- The faults of a leg or of a propagation are reported in words, the others by their kind. -/
def message? : Fault α → Option String
  | configuration cause => some cause.message
  | propagation cause => some cause.message
  | _ => none

end Fault

end LowThrust
