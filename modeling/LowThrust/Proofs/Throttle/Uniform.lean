import Mathlib
import LowThrust.Binary64.Scalar
import LowThrust.Proofs.Shooting.Reference
import LowThrust.Proofs.Throttle.Coverage
import LowThrust.Throttle.Uniform

/-!
Segments of equal length. They hold the throttles they are made from, each of them starts at the
very epoch at which the one before it ends, and in exact arithmetic they divide the leg evenly and
cover it.
-/

namespace LowThrust

/-- Nothing is left out if the vectors are complete. -/
theorem Vec3.flatMap_chunks {α : Type} :
    (xs : List α) → xs.length % 3 = 0 → (chunks xs).flatMap toList = xs
  | [], _ => rfl
  | x :: y :: z :: rest, h => by
    have complete : rest.length % 3 = 0 := by
      rw [List.length_cons, List.length_cons, List.length_cons] at h
      omega
    rw [chunks, List.flatMap_cons, flatMap_chunks rest complete]
    rfl

namespace ThrottleSegment

section Parts

variable {α : Type} [Scalar α]

/-- Equal parts of the time between two epochs, one for each throttle. -/
def equalParts (start final : Epoch α) (throttles : List (Vec3 α)) : List (ThrottleSegment α) :=
  let point (k : Nat) : Epoch α := ⟨gridPoint start.mjd2000 final.mjd2000 throttles.length k⟩
  throttles.mapIdx fun k v => ⟨point k, point (k + 1), v⟩

variable {start final : Epoch α} {throttles : List (Vec3 α)} {values : List α} {n : Nat}

@[simp] theorem length_equalParts :
    (equalParts start final throttles).length = throttles.length := List.length_mapIdx

theorem vector_equalParts :
    vector (equalParts start final throttles) = throttles.flatMap Vec3.toList := by
  have kept : (equalParts start final throttles).map value = throttles := by
    refine List.ext_getElem (by simp) fun k _ _ => ?_
    simp only [List.getElem_map, equalParts, List.getElem_mapIdx]
  conv_rhs => rw [← kept, List.flatMap_map]
  rfl

/-- The grid is the same on both sides of a joint. -/
theorem isChain_equalParts :
    (equalParts start final throttles).IsChain fun s t => t.start = s.final := by
  rw [List.isChain_iff_getElem]
  intro k _
  simp only [equalParts, List.getElem_mapIdx]

theorem uniform_eq_ok (h : values.length = 3 * n) (order : ¬ final ≤ start) :
    uniform (some start) (some final) values = .ok (equalParts start final (Vec3.chunks values)) := by
  have complete : ¬ values.length % 3 ≠ 0 := by omega
  rw [uniform, if_neg complete]
  simp only [if_neg order, equalParts, Vec3.length_chunks]

theorem exists_misconfiguration_uniform_iff :
    (∃ cause, uniform (some start) (some final) values = .error (.configuration cause)) ↔
      values.length % 3 ≠ 0 ∨ final ≤ start := by
  by_cases incomplete : values.length % 3 ≠ 0
  · exact iff_of_true ⟨_, if_pos incomplete⟩ (.inl incomplete)
  · rw [uniform, if_neg incomplete]
    by_cases order : final ≤ start <;> simp [order, incomplete]

end Parts

/-! ### Exact arithmetic -/

section Exact

variable {start final : Epoch ℝ} {throttles : List (Vec3 ℝ)} {n : Nat}

theorem gridPoint_real (a b : ℝ) (hn : 0 < n) (k : Nat) :
    gridPoint a b n k = a + k * ((b - a) / n) := by
  have parts : (n : ℝ) ≠ 0 := Nat.cast_ne_zero.mpr hn.ne'
  simp only [gridPoint, Exact.literal_zero, Exact.beq_iff]
  change (if k = n then b else if (b - a) / n = 0 then k / n * (b - a) + a
    else k * ((b - a) / n) + a) = _
  split
  · subst k
    rw [mul_div_cancel₀ _ parts, add_sub_cancel]
  · split <;> ring

theorem gridPoint_zero (a b : ℝ) (hn : 0 < n) : gridPoint a b n 0 = a := by
  rw [gridPoint_real a b hn, Nat.cast_zero, zero_mul, add_zero]

theorem head?_equalParts (nonempty : throttles ≠ []) :
    (equalParts start final throttles).head?.map ThrottleSegment.start = some start := by
  obtain ⟨v, rest, rfl⟩ := List.exists_cons_of_ne_nil nonempty
  simp only [equalParts, List.mapIdx_cons, List.head?_cons, Option.map_some]
  rw [gridPoint_zero _ _ (List.length_pos_of_ne_nil nonempty)]

theorem getLast?_equalParts (nonempty : throttles ≠ []) :
    (equalParts start final throttles).getLast?.map ThrottleSegment.final = some final := by
  have pos : 0 < throttles.length := List.length_pos_iff.mpr nonempty
  simp only [equalParts, List.getLast?_mapIdx, List.getLast?_eq_some_getLast nonempty,
    Option.map_some, Nat.sub_add_cancel pos, gridPoint, if_true]

theorem duration_equalParts {s : ThrottleSegment ℝ} (hs : s ∈ equalParts start final throttles) :
    s.duration = final.secondsSince start / throttles.length := by
  obtain ⟨k, hk, rfl⟩ := List.mem_iff_getElem.mp hs
  rw [length_equalParts] at hk
  have pos : 0 < throttles.length := Nat.zero_lt_of_lt hk
  simp only [equalParts, List.getElem_mapIdx, duration, Epoch.secondsSince, gridPoint_real _ _ pos]
  rw [Nat.cast_add_one]
  ring

theorem duration_equalParts_pos (order : start < final) {s : ThrottleSegment ℝ}
    (hs : s ∈ equalParts start final throttles) : 0 < s.duration := by
  have pos : 0 < (equalParts start final throttles).length := List.length_pos_of_mem hs
  rw [length_equalParts] at pos
  rw [duration_equalParts hs]
  exact div_pos (mul_pos (sub_pos.mpr order) secondsPerDay_pos) (Nat.cast_pos.mpr pos)

theorem covers_equalParts (nonempty : throttles ≠ []) (order : start < final) {tol : ℝ}
    (htol : 0 ≤ tol) : Covers (equalParts start final throttles) start final tol := by
  refine covers_of_joined htol (fun s hs => ?_) (head?_equalParts nonempty)
    (getLast?_equalParts nonempty) isChain_equalParts
  have pos : 0 < (s.final.mjd2000 - s.start.mjd2000) * secondsPerDay :=
    duration_equalParts_pos order hs
  exact (sub_pos.mp (pos_of_mul_pos_left pos secondsPerDay_pos.le)).le

end Exact

/-- Throttles as one list of numbers are refused exactly if the last one is incomplete or the leg
does not go forward in time. Otherwise there is one segment for each throttle, the segments give
back the numbers, and neighbours share the epoch between them. In exact arithmetic they divide the
leg, from its first epoch to its last, into parts of one positive length, and pass the test of
coverage under every tolerance. -/
theorem uniform_partitions :
    (∀ (α : Type) [Scalar α] (start final : Epoch α) (values : List α),
      ((∃ cause, uniform (some start) (some final) values = .error (.configuration cause)) ↔
        values.length % 3 ≠ 0 ∨ final ≤ start) ∧
      ∀ n, values.length = 3 * n → ¬ final ≤ start →
        ∃ segments, uniform (some start) (some final) values = .ok segments ∧
          segments.length = n ∧ vector segments = values ∧
          segments.IsChain fun s t => t.start = s.final) ∧
    ∀ (start final : Epoch ℝ) (values : List ℝ) (n : Nat),
      values.length = 3 * n → ¬ final ≤ start →
        ∃ segments, uniform (some start) (some final) values = .ok segments ∧
          (0 < n → segments.head?.map ThrottleSegment.start = some start ∧
            segments.getLast?.map ThrottleSegment.final = some final ∧
            ∀ s ∈ segments, s.duration = final.secondsSince start / n ∧ 0 < s.duration) ∧
          ∀ tol, 0 ≤ tol → checkCoverage segments (some start) (some final) tol = .ok () := by
  constructor
  · intro α _ start final values
    refine ⟨exists_misconfiguration_uniform_iff, fun n hn order => ⟨_, uniform_eq_ok hn order, ?_⟩⟩
    refine ⟨?_, ?_, isChain_equalParts⟩
    · rw [length_equalParts, Vec3.length_chunks]
      omega
    · rw [vector_equalParts]
      exact Vec3.flatMap_chunks values (by omega)
  · intro start final values n hn order
    have count : (Vec3.chunks values).length = n := by
      rw [Vec3.length_chunks]
      omega
    have order' : start < final := Epoch.not_le_real.mp order
    refine ⟨_, uniform_eq_ok hn order, fun pos => ?_, fun tol htol => ?_⟩
    · have nonempty : Vec3.chunks values ≠ [] := List.length_pos_iff.mp (count ▸ pos)
      refine ⟨head?_equalParts nonempty, getLast?_equalParts nonempty, fun s hs => ⟨?_, ?_⟩⟩
      · rw [duration_equalParts hs, count]
      · exact duration_equalParts_pos order' hs
    · by_cases nonempty : Vec3.chunks values = []
      · rw [nonempty]
        rfl
      · exact checkCoverage_eq_ok_iff_covers.mpr (covers_equalParts nonempty order' htol)

/-- Two throttles, one of which is not a number in a component, and two throttles in exact
arithmetic. -/
theorem uniform_partitions_twoSegments :
    (¬ (⟨90.0⟩ : Epoch Float) ≤ ⟨0.0⟩ ∧
      ∃ segments, uniform (some ⟨0.0⟩) (some ⟨90.0⟩) [0.1, 0.0, -0.0, Scalar.nan, 0.2, 0.0] =
          .ok segments ∧ segments.length = 2 ∧
        vector segments = [(0.1 : Float), 0.0, -0.0, Scalar.nan, 0.2, 0.0]) ∧
    ∃ segments, uniform (some ⟨0⟩) (some ⟨1⟩) [(1 : ℝ), 0, 0, 0, 1, 0] = .ok segments ∧
      (∀ s ∈ segments, s.duration = Epoch.secondsSince ⟨1⟩ ⟨0⟩ / 2) ∧
        checkCoverage segments (some ⟨0⟩) (some ⟨1⟩) 0 = .ok () := by
  obtain ⟨anyNumbers, exact⟩ := uniform_partitions
  have order : ¬ (⟨90.0⟩ : Epoch Float) ≤ ⟨0.0⟩ := by decide
  obtain ⟨segments, made, count, kept, -⟩ := (anyNumbers Float ⟨0.0⟩ ⟨90.0⟩
    [0.1, 0.0, -0.0, Scalar.nan, 0.2, 0.0]).2 2 rfl order
  obtain ⟨parts, divided, even, covered⟩ := exact ⟨0⟩ ⟨1⟩ [1, 0, 0, 0, 1, 0] 2 rfl
    (Epoch.not_le_real.mpr (zero_lt_one (α := ℝ)))
  exact ⟨⟨order, segments, made, count, kept⟩, parts, divided,
    fun s hs => ((even two_pos).2.2 s hs).1, covered 0 le_rfl⟩

end ThrottleSegment

end LowThrust
