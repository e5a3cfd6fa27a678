import LowThrust.Sorting.Merge

/-!
Stable sorting by merging runs. By an order that is total on the elements of a list, every stable
sort gives the same list; elements that compare to nothing stay where the comparisons that are
made leave them.
-/

namespace LowThrust.Sorting

variable {β : Type} (lt : β → β → Bool)

/-- The elements that continue `x` under a relation between neighbours, and the rest. -/
def chain (r : β → β → Bool) (x : β) : List β → List β × List β
  | [] => ([], [])
  | y :: ys =>
    if r x y then
      let (more, rest) := chain r y ys
      (y :: more, rest)
    else ([], y :: ys)

theorem chain_append (r : β → β → Bool) (x : β) (xs : List β) :
    (chain r x xs).1 ++ (chain r x xs).2 = xs := by
  fun_induction chain r x xs <;> simp_all

/-- The longest run at the front of a list, either nowhere descending or descending at each place
and then reversed, and the rest. -/
def firstRun : List β → List β × List β
  | x :: y :: ys =>
    let descending := lt y x
    let (more, rest) := chain (fun a b => lt b a == descending) x (y :: ys)
    (if descending then (x :: more).reverse else x :: more, rest)
  | xs => (xs, [])

/-- Puts an element into a run, behind those it does not go before. -/
def insert (run : List β) (x : β) : List β :=
  let i := bisect (fun i => run[i]?.any (lt x)) 0 run.length
  run.take i ++ x :: run.drop i

/-- Runs shorter than this are filled up. Lists of at most 63 elements are a single run. -/
def leastRun (carry size : Nat) : Nat :=
  if size < 64 then size + carry else leastRun (max carry (size % 2)) (size / 2)
termination_by size

/-- The next run, filled up to a least length, and the rest. -/
def nextRun (least : Nat) (xs : List β) : List β × List β :=
  let (run, rest) := firstRun lt xs
  let missing := least - run.length
  ((rest.take missing).foldl (insert lt) run, rest.drop missing)

/-- A run holds at least one element. -/
theorem length_rest_nextRun (least : Nat) (x : β) (xs : List β) :
    (nextRun lt least (x :: xs)).2.length < (x :: xs).length := by
  cases xs with
  | nil => simp [nextRun, firstRun]
  | cons y ys =>
    have whole := congrArg List.length
      (chain_append (fun a b => lt b a == lt y x) x (y :: ys))
    simp only [nextRun, firstRun, List.length_drop, List.length_append, List.length_cons] at whole ⊢
    omega

/-- The depth in a tree of halves at which the middles of two neighbouring runs part. Merging the
deepest boundaries first keeps the merges balanced. -/
def boundaryDepth (size start left right : Nat) : Nat :=
  let a := 2 * start + left
  let b := a + left + right
  ((List.range 64).find? fun k => (a <<< k) / size != (b <<< k) / size).getD 64

/-- Runs that wait to be merged, the last one first, each with the depth of its boundary to the
one behind it. -/
abbrev Pending (β : Type) := List (List β × Nat)

/-- Merges a run with those that wait before it, up to a boundary that is not deeper. -/
def settle (depth : Nat) : Pending β → List β → Nat → Pending β × List β × Nat
  | (run, d) :: pending, last, threshold =>
    if depth < d then
      let (merged, threshold) := merge lt threshold run last
      settle depth pending merged threshold
    else ((run, d) :: pending, last, threshold)
  | [], last, threshold => ([], last, threshold)

/-- Merges the last runs, or those before them if the last one is longer than the third. -/
def mergeAll (threshold : Nat) : List (List β) → List β
  | a :: b :: c :: runs =>
    if c.length < a.length then
      let (merged, threshold) := merge lt threshold c b
      mergeAll threshold (a :: merged :: runs)
    else
      let (merged, threshold) := merge lt threshold b a
      mergeAll threshold (merged :: c :: runs)
  | [a, b] => (merge lt threshold b a).1
  | [a] => a
  | [] => []
termination_by runs => runs.length

/-- Sorts what is left of a list of `size` elements, given the runs in front of it, of which the
last one is not settled yet. -/
def sortRest (size : Nat) (pending : Pending β) (last : List β) (threshold : Nat) :
    List β → List β
  | [] => mergeAll lt threshold (last :: pending.map Prod.fst)
  | x :: xs =>
    let next := nextRun lt (leastRun 0 size) (x :: xs)
    let start := size - (x :: xs).length - last.length
    let depth := boundaryDepth size start last.length next.1.length
    let (pending, last, threshold) := settle lt depth pending last threshold
    sortRest size ((last, depth) :: pending) next.1 threshold next.2
termination_by xs => xs.length
decreasing_by exact length_rest_nextRun lt (leastRun 0 size) x xs

def sort (xs : List β) : List β :=
  let first := nextRun lt (leastRun 0 xs.length) xs
  sortRest lt xs.length [] first.1 gallopGain first.2

end LowThrust.Sorting
