import LowThrust.Config
import LowThrust.Spacecraft
import LowThrust.Throttle.Segment

/-!
A leg takes a spacecraft from a state at its first epoch to a state at its final one through a
list of throttle segments. It is set up bit by bit; an evaluation works on a complete copy of it.
-/

namespace LowThrust

/-- A leg of which any part may still be missing. -/
structure Leg (α : Type) where
  config : PropagationConfig α
  startEpoch : Option (Epoch α) := none
  startState : Option (State α) := none
  throttles : List (ThrottleSegment α) := []
  finalEpoch : Option (Epoch α) := none
  finalState : Option (State α) := none
  spacecraft : Option (Spacecraft α) := none
  mu : Option α := none
  highFidelity : Bool := false

/-- A complete leg. -/
structure Transfer (α : Type) where
  config : PropagationConfig α
  startEpoch : Epoch α
  startState : State α
  throttles : List (ThrottleSegment α)
  finalEpoch : Epoch α
  finalState : State α
  spacecraft : Spacecraft α
  mu : α
  highFidelity : Bool

namespace Leg

variable {α : Type}

def empty (config : PropagationConfig α) : Leg α := { config }

def isSet (leg : Leg α) : LegField → Bool
  | .startEpoch => leg.startEpoch.isSome
  | .startState => leg.startState.isSome
  | .finalEpoch => leg.finalEpoch.isSome
  | .finalState => leg.finalState.isSome
  | .spacecraft => leg.spacecraft.isSome
  | .gravity => leg.mu.isSome

/-- The fields of a complete leg, in the order in which missing ones are listed. -/
def requiredFields : List LegField :=
  [.startEpoch, .startState, .finalEpoch, .finalState, .spacecraft, .gravity]

def missing (leg : Leg α) : List LegField := requiredFields.filter fun f => !leg.isSet f

/-- The leg as it is now, if nothing is missing. -/
def snapshot (leg : Leg α) : Except (Fault α) (Transfer α) :=
  match leg with
  | ⟨config, some startEpoch, some startState, throttles, some finalEpoch, some finalState,
      some spacecraft, some mu, highFidelity⟩ =>
    .ok ⟨config, startEpoch, startState, throttles, finalEpoch, finalState, spacecraft, mu,
      highFidelity⟩
  | leg => .error (.configuration (.fieldsMissing leg.missing))

theorem missing_eq_nil_iff (leg : Leg α) : leg.missing = [] ↔ ∃ t, leg.snapshot = .ok t := by
  obtain ⟨_, _ | _, _ | _, _, _ | _, _ | _, _ | _, _ | _, _⟩ := leg <;>
    simp [missing, requiredFields, isSet, snapshot]

end Leg

namespace Transfer

variable {α : Type} (t : Transfer α)

def size : Nat := t.throttles.length

/-- The number of segments that are flown forward from the start, half of them or one more. -/
def forwardCount : Nat := (t.size + 1) / 2

/-- The number of segments that are flown backward from the end. -/
def backwardCount : Nat := t.size / 2

/-- The segments that are flown forward, from the first one. -/
def forwardSegments : List (ThrottleSegment α) := t.throttles.take t.forwardCount

/-- The segments that are flown backward, from the last one toward the middle. -/
def backwardSegments : List (ThrottleSegment α) := (t.throttles.drop t.forwardCount).reverse

@[simp] theorem length_forwardSegments : t.forwardSegments.length = t.forwardCount := by
  simp only [forwardSegments, List.length_take, forwardCount, size]; omega

@[simp] theorem length_backwardSegments : t.backwardSegments.length = t.backwardCount := by
  simp only [backwardSegments, List.length_reverse, List.length_drop, backwardCount, forwardCount,
    size]
  omega

theorem forwardSegments_append_backwardSegments :
    t.forwardSegments ++ t.backwardSegments.reverse = t.throttles := by
  simp [forwardSegments, backwardSegments]

end Transfer

end LowThrust
