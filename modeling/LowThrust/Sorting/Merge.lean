import LowThrust.Sorting.Search

/-!
Merging of two runs that follow each other. While neither run wins for long, elements are compared
one by one; after a number of wins in a row, as many as belong together are found by a gallop.
That number is low while gallops pay and grows when they do not.
-/

namespace LowThrust.Sorting

variable {β : Type}

/-- A merge from the fronts of two lists `p` and `q`, of which `p` has the last word: its last
element ends the merge. A merge from the ends of two runs is one of the reversed lists. -/
structure Merger (β : Type) where
  /-- Whether an element of `q` goes before one of `p`. -/
  wins : β → β → Bool
  reversed : Bool

/-- How the next elements are found. -/
inductive Phase where
  | counting (pWins qWins : Nat)
  | galloping

/-- What a gallop moved, how much of it was won in a row, and what is left of the lists. -/
structure Pass (β : Type) where
  moved : List β
  won : Nat
  p : List β
  q : List β

/-- A gallop pays if it wins so many elements. -/
def gallopGain : Nat := 7

namespace Pass

/-- No more comparisons are needed. -/
def isLast (pass : Pass β) : Bool := pass.p.length ≤ 1 || pass.q.isEmpty

def rest (pass : Pass β) : List β := pass.q ++ pass.p

end Pass

namespace Merger

variable (m : Merger β)

/-- The number of elements at the front of a list that pass a test. Reversed lists are searched in
their first order. -/
def leading (test : β → Bool) (xs : List β) : Nat :=
  if m.reversed then
    let ys := xs.reverse
    ys.length - gallop (fun i => ys[i]?.any test) ys.length (ys.length - 1)
  else gallop (fun i => !xs[i]?.any test) xs.length 0

/-- Moves what goes before the first element of `q`, then that element. -/
def passP (p q : List β) : Pass β :=
  match q with
  | [] => ⟨[], 0, p, []⟩
  | y :: ys =>
    let n := m.leading (fun x => !m.wins y x) p
    if (p.drop n).length ≤ 1 then ⟨p.take n, n, p.drop n, y :: ys⟩
    else ⟨p.take n ++ [y], n, p.drop n, ys⟩

/-- Moves what goes before the first element of `p`, then that element. -/
def passQ (p q : List β) : Pass β :=
  match p with
  | [] => ⟨[], 0, [], q⟩
  | x :: xs =>
    let n := m.leading (fun y => m.wins y x) q
    if (q.drop n).isEmpty then ⟨q.take n, n, x :: xs, []⟩
    else ⟨q.take n ++ [x], n, xs, q.drop n⟩

/-- Each round has a pass for either list. -/
def firstPass (p q : List β) : Pass β := if m.reversed then m.passQ p q else m.passP p q

def secondPass (p q : List β) : Pass β := if m.reversed then m.passP p q else m.passQ p q

def counting (threshold pWins qWins : Nat) : Phase :=
  if threshold ≤ max pWins qWins then .galloping else .counting pWins qWins

/-- The merged list, and the threshold for the next merge. Every round moves an element. -/
def run : Nat → Nat → Phase → List β → List β → List β × Nat
  | fuel + 1, threshold, .counting pWins qWins, x :: x' :: p, y :: q =>
    if m.wins y x then
      let phase := counting threshold 0 (qWins + 1)
      let (merged, after) := run fuel threshold phase (x :: x' :: p) q
      (y :: merged, after)
    else
      let phase := counting threshold (pWins + 1) 0
      let (merged, after) := run fuel threshold phase (x' :: p) (y :: q)
      (x :: merged, after)
  | fuel + 1, threshold, .galloping, x :: x' :: p, y :: q =>
    let first := m.firstPass (x :: x' :: p) (y :: q)
    if first.isLast then (first.moved ++ first.rest, threshold)
    else
      let second := m.secondPass first.p first.q
      let moved := first.moved ++ second.moved
      if second.isLast then (moved ++ second.rest, threshold)
      else
        let (merged, after) :=
          if gallopGain ≤ max first.won second.won then
            run fuel (max 1 (threshold - 1)) .galloping second.p second.q
          else run fuel (threshold + 1) (.counting 0 0) second.p second.q
        (moved ++ merged, after)
  | _, threshold, _, p, q => (q ++ p, threshold)

end Merger

variable (lt : β → β → Bool)

/-- Merges two runs of which the second one starts with an element that goes before the last of
the first, and the first ends with one that goes after the last of the second. -/
def mergeOverlap (threshold : Nat) (a b : List β) : List β × Nat :=
  let fuel := a.length + b.length
  if a.length ≤ b.length then
    let (merged, after) := (Merger.mk lt false).run fuel threshold (.counting 0 0) a b.tail
    (b.take 1 ++ merged, after)
  else
    let (merged, after) :=
      (Merger.mk (fun x y => lt y x) true).run fuel threshold (.counting 0 0) b.reverse
        a.reverse.tail
    ((a.reverse.take 1 ++ merged).reverse, after)

/-- Merges two runs. What goes before the second run, and what goes after the first, stays where
it is. -/
def merge (threshold : Nat) (a b : List β) : List β × Nat :=
  let head := gallop (fun i => a[i]?.any fun x => b.head?.any (lt · x)) a.length 0
  let tail := gallop (fun i => !b[i]?.any fun y => a.getLast?.any (lt y)) b.length (b.length - 1)
  if head < a.length ∧ 0 < tail then
    let (merged, after) := mergeOverlap lt threshold (a.drop head) (b.take tail)
    (a.take head ++ merged ++ b.drop tail, after)
  else (a ++ b, threshold)

end LowThrust.Sorting
