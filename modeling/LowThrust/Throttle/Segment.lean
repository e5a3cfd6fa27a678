import LowThrust.State

/-!
Segments of a leg. The thrust over a segment is a fraction of the greatest one in each direction,
and an impulse at the middle of the segment stands for it.
-/

namespace LowThrust

structure ThrottleSegment (α : Type) where
  start : Epoch α
  final : Epoch α
  value : Vec3 α
  deriving DecidableEq

namespace ThrottleSegment

variable {α : Type}

def ofTensor (start final : Epoch α) (value : Tensor α) :
    Except (Fault α) (ThrottleSegment α) :=
  return ⟨start, final, ← value.toVec3 .throttleValue⟩

section Arithmetic

variable [Scalar α]

/-- No thrust, and no time either: the place of a segment that is still to be set. -/
def placeholder : ThrottleSegment α := ⟨.origin, .origin, .zero⟩

def norm (s : ThrottleSegment α) : α := s.value.norm

/-- In seconds; negative if the segment ends before it starts. -/
def duration (s : ThrottleSegment α) : α := s.final.secondsSince s.start

/-- The time of the impulse, in seconds since the origin of epochs. -/
def midpoint (s : ThrottleSegment α) : α :=
  (s.start.mjd2000 + s.final.mjd2000) / 2.0 * secondsPerDay

/-- How far the throttle exceeds the unit ball: positive outside, at most zero within. -/
def excess (s : ThrottleSegment α) : α := s.value.dot s.value - 1.0

def same (s t : ThrottleSegment α) : Bool :=
  s.start.same t.start && s.final.same t.final && s.value.same t.value

end Arithmetic

def exactText [DecimalText α] (s : ThrottleSegment α) : String :=
  "ThrottleSegment(start=" ++ LowThrust.exactText s.start.mjd2000 ++ ", end=" ++
    LowThrust.exactText s.final.mjd2000 ++ ", value=" ++ State.listText s.value.toList ++ ")"

end ThrottleSegment

end LowThrust
