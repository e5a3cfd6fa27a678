/-!
Where a test on positions turns true. Of a test that is false up to some position and true from
there on, both searches find that position; of any other they find what the positions they look
at suggest.
-/

namespace LowThrust.Sorting

/-- The range from `low` to `high` is halved until nothing is left of it. -/
def bisect (p : Nat → Bool) (low high : Nat) : Nat :=
  if low < high then
    let middle := (low + high) / 2
    if p middle then bisect p low middle else bisect p (middle + 1) high
  else high
termination_by high - low

/-- The first of `next`, twice that and one, and so on, at which the test fails or which reaches
`limit`, and the one before it. -/
def stride (p : Nat → Bool) (limit last next : Nat) : Nat × Nat :=
  if next < limit ∧ p next then stride p limit next (2 * next + 1) else (last, min next limit)
termination_by limit - next

/-- The search moves away from `start` with growing strides, then halves the last one. -/
def gallop (p : Nat → Bool) (size start : Nat) : Nat :=
  if p start then
    let (last, next) := stride (fun d => p (start - d)) (start + 1) 0 1
    bisect p (start + 1 - next) (start - last)
  else
    let (last, next) := stride (fun d => !p (start + d)) (size - start) 0 1
    bisect p (start + last + 1) (start + next)

end LowThrust.Sorting
