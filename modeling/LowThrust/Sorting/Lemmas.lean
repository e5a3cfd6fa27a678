import LowThrust.Sorting.Runs

/-!
Sorting permutes: whatever is compared and however the comparisons turn out, the elements of the
sorted list are those of the list.
-/

namespace LowThrust.Sorting

open List

variable {β : Type}

namespace Merger

variable (m : Merger β)

theorem passP_perm (p q : List β) :
    let a := m.passP p q
    a.moved ++ a.rest ~ p ++ q := by
  cases q with
  | nil => simp [passP, Pass.rest]
  | cons y ys =>
    simp only [passP, Pass.rest]
    generalize m.leading _ p = n
    split
    · calc p.take n ++ (y :: ys ++ p.drop n)
        _ ~ p.take n ++ (p.drop n ++ y :: ys) := perm_append_comm.append_left _
        _ = p ++ y :: ys := by rw [← append_assoc, take_append_drop]
    · calc p.take n ++ [y] ++ (ys ++ p.drop n)
        _ = p.take n ++ (y :: ys ++ p.drop n) := by simp
        _ ~ p.take n ++ (p.drop n ++ y :: ys) := perm_append_comm.append_left _
        _ = p ++ y :: ys := by rw [← append_assoc, take_append_drop]

theorem passQ_perm (p q : List β) :
    let a := m.passQ p q
    a.moved ++ a.rest ~ p ++ q := by
  cases p with
  | nil => simp [passQ, Pass.rest]
  | cons x xs =>
    simp only [passQ, Pass.rest]
    generalize m.leading _ q = n
    split
    next h =>
      have hq : q.take n = q := by
        have := take_append_drop n q
        simp only [List.isEmpty_iff] at h
        rwa [h, append_nil] at this
      rw [hq, nil_append]
      exact perm_append_comm
    · calc q.take n ++ [x] ++ (q.drop n ++ xs)
        _ ~ q.take n ++ [x] ++ (xs ++ q.drop n) := perm_append_comm.append_left _
        _ = q.take n ++ (x :: xs ++ q.drop n) := by simp
        _ ~ q.take n ++ (q.drop n ++ x :: xs) := perm_append_comm.append_left _
        _ = q ++ x :: xs := by rw [← append_assoc, take_append_drop]
        _ ~ x :: xs ++ q := perm_append_comm

theorem firstPass_perm (p q : List β) :
    (m.firstPass p q).moved ++ (m.firstPass p q).rest ~ p ++ q := by
  unfold firstPass
  split
  · exact m.passQ_perm p q
  · exact m.passP_perm p q

theorem secondPass_perm (p q : List β) :
    (m.secondPass p q).moved ++ (m.secondPass p q).rest ~ p ++ q := by
  unfold secondPass
  split
  · exact m.passP_perm p q
  · exact m.passQ_perm p q

theorem rounds_perm (p q : List β) :
    (m.firstPass p q).moved ++ ((m.secondPass (m.firstPass p q).p (m.firstPass p q).q).moved ++
      (m.secondPass (m.firstPass p q).p (m.firstPass p q).q).rest) ~ p ++ q :=
  (((m.secondPass_perm _ _).trans perm_append_comm).append_left _).trans (m.firstPass_perm p q)

theorem run_perm (fuel threshold : Nat) (phase : Phase) (p q : List β) :
    (m.run fuel threshold phase p q).1 ~ p ++ q := by
  fun_induction run m fuel threshold phase p q with
  | case1 fuel threshold pWins qWins x x' p y q _ phase merged after h ih =>
    simp only [h] at ih
    exact (ih.cons y).trans perm_middle.symm
  | case2 fuel threshold pWins qWins x x' p y q _ phase merged after h ih =>
    simp only [h] at ih
    exact ih.cons x
  | case3 => exact m.firstPass_perm _ _
  | case4 fuel threshold x x' p y q first _ second moved =>
    simpa only [moved, append_assoc] using m.rounds_perm (x :: x' :: p) (y :: q)
  | case5 fuel threshold x x' p y q first _ second moved _ merged after h ih2 ih1 =>
    have merged_perm : merged ~ second.p ++ second.q := by
      split at h
      · simpa only [h] using ih2
      · simpa only [h] using ih1
    have := m.rounds_perm (x :: x' :: p) (y :: q)
    simp only [moved, append_assoc]
    exact ((merged_perm.trans perm_append_comm).append_left _ |>.append_left _).trans this
  | case6 => exact perm_append_comm

end Merger

variable (lt : β → β → Bool)

theorem mergeOverlap_perm (threshold : Nat) (a b : List β) :
    (mergeOverlap lt threshold a b).1 ~ a ++ b := by
  have split (xs : List β) : xs.take 1 ++ xs.tail = xs := by cases xs <;> rfl
  simp only [mergeOverlap]
  split
  · refine ((Merger.run_perm _ _ _ _ a b.tail).append_left _).trans ?_
    rw [← append_assoc]
    refine (perm_append_comm.append_right _).trans ?_
    rw [append_assoc, split]
  · refine (reverse_perm _).trans ?_
    refine ((Merger.run_perm _ _ _ _ b.reverse a.reverse.tail).append_left _).trans ?_
    rw [← append_assoc]
    refine (perm_append_comm.append_right _).trans ?_
    rw [append_assoc, split]
    exact ((reverse_perm b).append (reverse_perm a)).trans perm_append_comm

theorem merge_perm (threshold : Nat) (a b : List β) : (merge lt threshold a b).1 ~ a ++ b := by
  simp only [merge]
  split
  · generalize gallop _ a.length _ = k
    generalize gallop _ b.length _ = n
    refine (((mergeOverlap_perm lt threshold (a.drop k) (b.take n)).append_left _).append_right
      _).trans ?_
    rw [← append_assoc, take_append_drop, append_assoc, take_append_drop]
  · exact .refl _

theorem firstRun_perm (xs : List β) : (firstRun lt xs).1 ++ (firstRun lt xs).2 ~ xs := by
  fun_cases firstRun lt xs with
  | case1 x y ys descending more rest h =>
    have whole := chain_append (fun a b => lt b a == descending) x (y :: ys)
    rw [h] at whole
    rw [← whole, ← cons_append]
    refine Perm.append_right _ ?_
    split
    · exact reverse_perm _
    · exact .refl _
  | case2 => simp

theorem insert_perm (run : List β) (x : β) : insert lt run x ~ x :: run := by
  simp only [insert]
  refine perm_middle.trans ?_
  rw [take_append_drop]

theorem foldl_insert_perm (run xs : List β) : xs.foldl (insert lt) run ~ run ++ xs := by
  induction xs generalizing run with
  | nil => simp
  | cons x xs ih =>
    exact (ih _).trans (((insert_perm lt run x).append_right xs).trans perm_middle.symm)

theorem nextRun_perm (least : Nat) (xs : List β) :
    (nextRun lt least xs).1 ++ (nextRun lt least xs).2 ~ xs := by
  simp only [nextRun]
  refine ((foldl_insert_perm lt _ _).append_right _).trans ?_
  rw [append_assoc, take_append_drop]
  exact firstRun_perm lt xs

theorem settle_perm (depth : Nat) (pending : Pending β) (last : List β) (threshold : Nat) :
    (settle lt depth pending last threshold).2.1 ++
      ((settle lt depth pending last threshold).1.map Prod.fst).flatten ~
      last ++ (pending.map Prod.fst).flatten := by
  fun_induction settle lt depth pending last threshold with
  | case1 run d pending last threshold _ merged after h ih =>
    have hm := merge_perm lt threshold run last
    rw [h] at hm
    refine ih.trans ((hm.append_right _).trans ?_)
    simp only [map_cons, flatten_cons, append_assoc]
    rw [← append_assoc, ← append_assoc]
    exact perm_append_comm.append_right _
  | case2 => exact .refl _
  | case3 => exact .refl _

theorem mergeAll_perm (threshold : Nat) (runs : List (List β)) :
    mergeAll lt threshold runs ~ runs.flatten := by
  fun_induction mergeAll lt threshold runs with
  | case1 threshold a b c runs _ merged after h ih =>
    have hm := merge_perm lt threshold c b
    rw [h] at hm
    refine ih.trans ?_
    simp only [flatten_cons]
    rw [← append_assoc b]
    exact ((hm.trans perm_append_comm).append_right _).append_left _
  | case2 threshold a b c runs _ merged after h ih =>
    have hm := merge_perm lt threshold b a
    rw [h] at hm
    refine ih.trans ?_
    simp only [flatten_cons]
    rw [← append_assoc a]
    exact (hm.trans perm_append_comm).append_right _
  | case3 threshold a b =>
    simpa using (merge_perm lt threshold b a).trans perm_append_comm
  | case4 => simp
  | case5 => simp

theorem sortRest_perm (size : Nat) (pending : Pending β) (last : List β) (threshold : Nat)
    (xs : List β) :
    sortRest lt size pending last threshold xs ~ last ++ (pending.map Prod.fst).flatten ++ xs := by
  fun_induction sortRest lt size pending last threshold xs with
  | case1 pending last threshold =>
    simpa using mergeAll_perm lt threshold (last :: pending.map Prod.fst)
  | case2 pending last threshold x xs next start depth pending' last' threshold' h ih =>
    have settled := settle_perm lt depth pending last threshold
    rw [h] at settled
    have taken := nextRun_perm lt (leastRun 0 size) (x :: xs)
    refine ih.trans ?_
    simp only [map_cons, flatten_cons]
    refine ((perm_append_comm.append_right _).trans ?_)
    rw [append_assoc]
    exact settled.append taken

theorem sort_perm (xs : List β) : sort lt xs ~ xs := by
  have taken := nextRun_perm lt (leastRun 0 xs.length) xs
  simpa [sort] using (sortRest_perm lt xs.length [] _ gallopGain _).trans (by simpa using taken)

end LowThrust.Sorting
