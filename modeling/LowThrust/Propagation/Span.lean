import LowThrust.Propagation.Maneuver
import LowThrust.Sorting.Runs

/-!
The spans of a propagation between its maneuvers, and the output times within a span.
-/

namespace LowThrust

open Scalar

/-- A coast between two times in seconds, and the maneuver that ends it. -/
structure Span (α : Type) where
  start : α
  final : α
  maneuver : Option (Maneuver α)

variable {α : Type} [Scalar α]

namespace Maneuver

/-- Seconds from the start of the propagation. -/
def time (m : Maneuver α) (start : Epoch α) : α := m.epoch.secondsSince start

/-- In order of their epochs; of equal epochs, in the given order. Every stable sort gives this
list unless an epoch is not a number, which compares to nothing; then the list is what a merge of
runs makes of it. -/
def sort (ms : List (Maneuver α)) : List (Maneuver α) :=
  if ms.all fun m => m.epoch.same m.epoch then
    ms.mergeSort fun a b => !decide (b.epoch < a.epoch)
  else Sorting.sort (fun a b => decide (a.epoch < b.epoch)) ms

end Maneuver

namespace Span

/-- Spans from `current` on, one for each maneuver that lies between zero and `duration`, and one
that has no maneuver. -/
def between (start : Epoch α) (duration : α) (current : α) : List (Maneuver α) → List (Span α)
  | [] => [⟨current, duration, none⟩]
  | m :: ms =>
    let t := m.time start
    if t < 0.0 ∨ t > duration then between start duration current ms
    else ⟨current, t, some m⟩ :: between start duration t ms

/-- Every list of output times is shorter than this. -/
def outputLimit : Int := 0x1000000000000000

/-- How many multiples of a step begin before the end of a span, whose start is one of them. -/
def outputCount (step : α) (s : Span α) : Except (Fault α) Int :=
  if step == 0.0 then .error .divisionByZero
  else
    let count := (s.final - s.start) / step
    if !isFinite count then .error .outputStep
    else
      let n := if step > 0.0 then max 1 (ceil count) else ceil count
      if n < outputLimit then .ok n else .error .outputStep

/-- The end of the span closes the list unless it is there already. -/
def closeAt (final : α) (times : List α) : List α :=
  match times.getLast? with
  | none => [final]
  | some t => if t < final then times ++ [final] else times

/-- So many times from `start` on, each `apart` from the one before it. -/
def progression (start apart : α) : Nat → List α
  | 0 => []
  | n + 1 => start :: (List.range n).map fun i => start + ofNat (i + 1) * apart

@[simp] theorem length_progression (start apart : α) (n : Nat) :
    (progression start apart n).length = n := by
  cases n <;> simp [progression]

/-- The start of the span and further times at a distance of `step`, closed by its end. -/
def grid (step : α) (s : Span α) : Except (Fault α) (List α) := do
  let n ← s.outputCount step
  return closeAt s.final (progression s.start (s.start + step - s.start) n.toNat)

/-- Without a step, only the ends of the span are output times. -/
def outputTimes (step : Option α) (s : Span α) : Except (Fault α) (List α) :=
  match step with
  | none => .ok [s.start, s.final]
  | some step => s.grid step

end Span

end LowThrust
