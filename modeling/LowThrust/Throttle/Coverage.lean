import LowThrust.Throttle.Segment

/-!
Whether segments cover a leg from its first to its final epoch without gaps and overlaps.
-/

namespace LowThrust.ThrottleSegment

open Scalar

variable {α : Type} [Scalar α]

def checkForward (tol : α) (k : Nat) : List (ThrottleSegment α) → Except (Fault α) Unit
  | [] => .ok ()
  | s :: rest =>
    if s.final.mjd2000 < s.start.mjd2000 - tol then
      .error (.configuration (.segmentReversed k s.start s.final))
    else checkForward tol (k + 1) rest

/-- Segment `k` and its successors, each of which starts where the one before it ends. -/
def checkJoints (tol : α) (k : Nat) : List (ThrottleSegment α) → Except (Fault α) Unit
  | s :: t :: rest =>
    let gap := t.start.daysSince s.final
    if gap > tol then .error (.configuration (.gap gap k))
    else if gap < -tol then .error (.configuration (.overlap (-gap) k))
    else checkJoints tol (k + 1) (t :: rest)
  | _ => .ok ()

def setEpoch : Option (Epoch α) → Except (Fault α) (Epoch α)
  | some t => .ok t
  | none => .error .epochNotSet

/-- Boundaries may be apart by `tol` days. No segments at all are a coast, which covers any leg. -/
def checkCoverage (segments : List (ThrottleSegment α)) (start final : Option (Epoch α))
    (tol : α) : Except (Fault α) Unit :=
  match segments with
  | [] => .ok ()
  | first :: rest => do
    let last := rest.getLastD first
    checkForward tol 0 segments
    let start ← setEpoch start
    if Scalar.abs (first.start.daysSince start) > tol then
      throw (.configuration (.firstSegmentStart first.start start))
    let final ← setEpoch final
    if Scalar.abs (last.final.daysSince final) > tol then
      throw (.configuration (.lastSegmentEnd last.final final))
    checkJoints tol 0 segments

/-- The tolerance in days when none is given. -/
def coverageTolerance : α := 1e-9

end LowThrust.ThrottleSegment
