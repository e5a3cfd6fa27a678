import Mathlib
import LowThrust.Propagation.Span
import LowThrust.Proofs.Exact.Real

/-!
The output times within a span, in exact arithmetic: they lead from its start to its end, no further
apart than the step.
-/

namespace LowThrust

/-- Increasing times, of which `a` is the first and `b` the last. -/
structure IsGrid (a b : ℝ) (times : List ℝ) : Prop where
  increasing : times.Pairwise (· < ·)
  first : times.head? = some a
  last : times.getLast? = some b

namespace Span

theorem outputCount_eq {step : ℝ} (hstep : 0 < step) {span : Span ℝ}
    (lt : span.start < span.final) :
    span.outputCount step =
      if ⌈(span.final - span.start) / step⌉ < outputLimit then
        .ok ⌈(span.final - span.start) / step⌉
      else .error .outputStep := by
  have some_time : 1 ≤ ⌈(span.final - span.start) / step⌉ :=
    Int.ceil_pos.mpr (div_pos (sub_pos.mpr lt) hstep)
  have finite : Scalar.isFinite ((span.final - span.start) / step) = true := rfl
  have ceil : Scalar.ceil ((span.final - span.start) / step) =
    ⌈(span.final - span.start) / step⌉ := rfl
  simp only [outputCount, Exact.beq_iff, Exact.literal_zero, hstep.ne', hstep, finite, ceil,
    if_false, if_true, Bool.not_true, Bool.false_eq_true, max_eq_right some_time]

theorem progression_eq (start apart : ℝ) (n : Nat) :
    progression start apart n = (List.range n).map fun i : Nat => start + i * apart := by
  cases n with
  | zero => rfl
  | succ n =>
    rw [progression, List.range_succ_eq_map, List.map_cons, List.map_map, Nat.cast_zero, zero_mul,
      add_zero]
    rfl

theorem getLast?_progression (start apart : ℝ) (k : Nat) :
    (progression start apart (k + 1)).getLast? = some (start + k * apart) := by
  rw [progression_eq, List.range_succ, List.map_append, List.map_singleton, List.getLast?_concat]

/-- The last of the times before the end is within a step of it. -/
theorem isGrid_progression {a b step : ℝ} {k : Nat} (hstep : 0 < step) (before : a + k * step < b)
    (near : b - (a + k * step) ≤ step) :
    IsGrid a b (progression a step (k + 1) ++ [b]) ∧
      (progression a step (k + 1) ++ [b]).IsChain fun s t => t - s ≤ step := by
  have mono {i j : Nat} (h : i ≤ j) : a + i * step ≤ a + j * step := by gcongr
  refine ⟨⟨?_, rfl, List.getLast?_concat⟩, ?_⟩
  · rw [List.pairwise_append]
    refine ⟨?_, List.pairwise_singleton _ _, ?_⟩
    · rw [progression_eq, List.pairwise_map]
      exact List.pairwise_lt_range.imp fun lt => by gcongr
    · simp only [progression_eq, List.mem_map, List.mem_range, List.mem_singleton]
      rintro _ ⟨i, hi, rfl⟩ _ rfl
      exact (mono (Nat.le_of_lt_succ hi)).trans_lt before
  · rw [List.isChain_append]
    refine ⟨?_, List.isChain_singleton _, ?_⟩
    · rw [progression_eq, List.isChain_map, List.isChain_range_succ]
      intro i _
      rw [Nat.cast_succ]
      exact le_of_eq (by ring)
    · rw [getLast?_progression]
      rintro _ ⟨⟩ _ ⟨⟩
      exact near

/-- The last multiple of the step is before the end, so that the end closes the list. -/
theorem grid_eq {step : ℝ} (hstep : 0 < step) {span : Span ℝ} (lt : span.start < span.final) :
    ∃ k : Nat, span.start + k * step < span.final ∧
      span.final - (span.start + k * step) ≤ step ∧
      span.grid step =
        if ⌈(span.final - span.start) / step⌉ < outputLimit then
          .ok (progression span.start step (k + 1) ++ [span.final])
        else .error .outputStep := by
  have some_time : 0 < ⌈(span.final - span.start) / step⌉ :=
    Int.ceil_pos.mpr (div_pos (sub_pos.mpr lt) hstep)
  obtain ⟨n, hn⟩ := Int.eq_ofNat_of_zero_le some_time.le
  obtain ⟨k, rfl⟩ : ∃ k, n = k + 1 := Nat.exists_eq_succ_of_ne_zero (by omega)
  obtain ⟨above, below⟩ := Int.ceil_eq_iff.mp hn
  rw [Int.cast_natCast, Nat.cast_succ, add_sub_cancel_right, lt_div_iff₀ hstep] at above
  rw [Int.cast_natCast, Nat.cast_succ, div_le_iff₀ hstep] at below
  have before : span.start + k * step < span.final := by linarith
  refine ⟨k, before, by linarith, ?_⟩
  rw [grid, outputCount_eq hstep lt, hn, add_sub_cancel_left]
  split
  · change Except.ok (closeAt span.final (progression span.start step (k + 1))) = _
    simp only [closeAt, getLast?_progression, before, if_true]
  · rfl

variable {outputStep : Option ℝ} {span : Span ℝ}

theorem isGrid_of_outputTimes (hstep : ∀ step ∈ outputStep, 0 < step)
    (lt : span.start < span.final) {times : List ℝ} (h : span.outputTimes outputStep = .ok times) :
    IsGrid span.start span.final times ∧
      ∀ step ∈ outputStep, times.IsChain fun s t => t - s ≤ step := by
  cases outputStep with
  | none =>
    cases h
    exact ⟨⟨List.pairwise_pair.mpr lt, rfl, rfl⟩, nofun⟩
  | some step =>
    obtain ⟨k, before, near, grid⟩ := grid_eq (hstep step rfl) lt
    obtain ⟨isGrid, close⟩ := isGrid_progression (hstep step rfl) before near
    rw [outputTimes, grid] at h
    split at h
    · cases h
      exact ⟨isGrid, fun _ same => Option.some.inj same ▸ close⟩
    · cases h

theorem exists_outputTimes_iff (hstep : ∀ step ∈ outputStep, 0 < step)
    (lt : span.start < span.final) :
    (∃ times, span.outputTimes outputStep = .ok times) ↔
      ∀ step ∈ outputStep, ⌈(span.final - span.start) / step⌉ < outputLimit := by
  cases outputStep with
  | none => exact iff_of_true ⟨_, rfl⟩ nofun
  | some step =>
    obtain ⟨k, -, -, grid⟩ := grid_eq (hstep step rfl) lt
    rw [outputTimes, grid]
    split
    · next fits => exact iff_of_true ⟨_, rfl⟩ fun _ same => Option.some.inj same ▸ fits
    · next exceeds =>
      refine iff_of_false ?_ fun fits => exceeds (fits step rfl)
      rintro ⟨times, h⟩
      cases h

end Span

end LowThrust
