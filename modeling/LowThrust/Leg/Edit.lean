import LowThrust.Leg.Basic

/-!
Changes of a leg. Each is checked before anything is written, so that the final epoch stays after
the first one and the gravitational parameter positive.
-/

namespace LowThrust

/-- A change of a leg, which may fail; what it has written by then stays. -/
abbrev LegEdit (α : Type) := EStateM (Fault α) (Leg α)

/-- Segments as they are handed over one by one, unless a fault ends them. -/
abbrev SegmentSource (α : Type) := Except (Fault α) (List (ThrottleSegment α))

instance {α : Type} : Coe (List (ThrottleSegment α)) (SegmentSource α) := ⟨.ok⟩

/-- What is set at once. An absent spacecraft or mode leaves the one there is. -/
structure LegSetup (α : Type) where
  startEpoch : Option (Epoch α)
  startState : Option (State α)
  throttles : SegmentSource α
  finalEpoch : Option (Epoch α)
  finalState : Option (State α)
  mu : α
  spacecraft : Option (Spacecraft α) := none
  highFidelity : Option Bool := none

namespace Leg

variable {α : Type} [Scalar α]

/-- Epochs are compared once both are set. -/
def checkEpochs (start final : Option (Epoch α)) : Except (Fault α) Unit :=
  match start, final with
  | some start, some final =>
    if final ≤ start then .error (.configuration (.epochOrder start final)) else .ok ()
  | _, _ => .ok ()

def checkMu (mu : α) : Except (Fault α) Unit :=
  if mu > 0.0 then .ok () else .error (.configuration (.gravityNotPositive mu))

/-- In days, between epochs that are set. -/
def timeOfFlight (start final : Option (Epoch α)) : Except (Fault α) α :=
  match start, final with
  | some start, some final => .ok (final.daysSince start)
  | _, _ => .error .noTimeOfFlight

/-- The leg with a setup written into it, whose segments have been listed. -/
def withSetup (s : LegSetup α) (throttles : List (ThrottleSegment α)) (leg : Leg α) : Leg α :=
  { leg with
    startEpoch := s.startEpoch
    startState := s.startState
    throttles
    finalEpoch := s.finalEpoch
    finalState := s.finalState
    mu := some s.mu
    spacecraft := s.spacecraft.or leg.spacecraft
    highFidelity := s.highFidelity.getD leg.highFidelity }

/-- Sets the leg up and tells its time of flight, which is worked out last. -/
def configure (s : LegSetup α) : LegEdit α α := do
  MonadExcept.ofExcept (checkEpochs s.startEpoch s.finalEpoch)
  MonadExcept.ofExcept (checkMu s.mu)
  let throttles ← MonadExcept.ofExcept s.throttles
  modify (withSetup s throttles)
  MonadExcept.ofExcept (timeOfFlight s.startEpoch s.finalEpoch)

def setStartEpoch (t : Option (Epoch α)) : LegEdit α Unit := do
  MonadExcept.ofExcept (checkEpochs t (← get).finalEpoch)
  modify fun leg => { leg with startEpoch := t }

def setFinalEpoch (t : Option (Epoch α)) : LegEdit α Unit := do
  MonadExcept.ofExcept (checkEpochs (← get).startEpoch t)
  modify fun leg => { leg with finalEpoch := t }

def setStartState (s : Option (State α)) : LegEdit α Unit :=
  modify fun leg => { leg with startState := s }

def setFinalState (s : Option (State α)) : LegEdit α Unit :=
  modify fun leg => { leg with finalState := s }

def setSpacecraft (sc : Option (Spacecraft α)) : LegEdit α Unit :=
  modify fun leg => { leg with spacecraft := sc }

def setMu (mu : α) : LegEdit α Unit := do
  MonadExcept.ofExcept (checkMu mu)
  modify fun leg => { leg with mu := some mu }

def setHighFidelity (flag : Bool) : LegEdit α Unit :=
  modify fun leg => { leg with highFidelity := flag }

def setThrottles (source : SegmentSource α) : LegEdit α Unit := do
  let throttles ← MonadExcept.ofExcept source
  modify fun leg => { leg with throttles }

/-- Cuts the throttle list, or fills it up with placeholders. -/
def resize (size : Int) : LegEdit α Unit := do
  if size < 0 then throw (.configuration (.throttleListSize size))
  modify fun leg =>
    { leg with
      throttles := leg.throttles.take size.toNat ++
        List.replicate (size.toNat - leg.throttles.length) .placeholder }

/-- Positions from the front, or negative ones from the back. -/
def position? (length : Nat) (index : Int) : Option Nat :=
  let i := if index < 0 then index + length else index
  if 0 ≤ i ∧ i < length then some i.toNat else none

def setThrottle (index : Int) (segment : ThrottleSegment α) : LegEdit α Unit := do
  match position? (← get).throttles.length index with
  | some i => modify fun leg => { leg with throttles := leg.throttles.set i segment }
  | none => throw .indexOutOfRange

def throttle (leg : Leg α) (index : Int) : Except (Fault α) (ThrottleSegment α) :=
  match (position? leg.throttles.length index).bind (leg.throttles[·]?) with
  | some s => .ok s
  | none => .error .indexOutOfRange

end Leg

end LowThrust
