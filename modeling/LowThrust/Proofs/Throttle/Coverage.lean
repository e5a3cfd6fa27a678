import Mathlib
import LowThrust.Proofs.Exact.Real
import LowThrust.Proofs.Leg.Step
import LowThrust.Throttle.Coverage

/-!
The test of coverage. Segments pass it exactly if their boundaries meet each other and those of the
leg within the tolerance. Without any tolerance they then fill the leg: every time in it belongs to
one of them and to no other.
-/

namespace LowThrust

namespace Epoch

theorem not_le_real {s t : Epoch ℝ} : ¬ s ≤ t ↔ t < s := not_le (α := ℝ)

theorem not_lt_real {s t : Epoch ℝ} : ¬ s < t ↔ t ≤ s := not_lt (α := ℝ)

end Epoch

namespace ThrottleSegment

section Checks

variable {α : Type} [Scalar α] {tol : α} {segments : List (ThrottleSegment α)}

theorem checkForward_eq_ok_iff {k : Nat} :
    checkForward tol k segments = .ok () ↔
      ∀ s ∈ segments, ¬ s.final.mjd2000 < s.start.mjd2000 - tol := by
  induction segments generalizing k with
  | nil => simp [checkForward]
  | cons s rest ih =>
    rw [checkForward, List.forall_mem_cons, ← ih (k := k + 1)]
    by_cases reversed : s.final.mjd2000 < s.start.mjd2000 - tol <;> simp [reversed]

theorem checkJoints_eq_ok_iff {k : Nat} :
    checkJoints tol k segments = .ok () ↔
      segments.IsChain fun s t =>
        ¬ t.start.daysSince s.final > tol ∧ ¬ t.start.daysSince s.final < -tol := by
  induction segments generalizing k with
  | nil => simp [checkJoints]
  | cons s rest ih =>
    cases rest with
    | nil => simp [checkJoints]
    | cons t rest =>
      rw [checkJoints, List.isChain_cons_cons, ← ih (k := k + 1)]
      by_cases gap : t.start.daysSince s.final > tol
      · simp [gap]
      · by_cases overlap : t.start.daysSince s.final < -tol <;> simp [gap, overlap]

theorem checkCoverage_eq_ok_iff {start final : Epoch α} :
    checkCoverage segments (some start) (some final) tol = .ok () ↔
      checkForward tol 0 segments = .ok () ∧
      (∀ s ∈ segments.head?, ¬ Scalar.abs (s.start.daysSince start) > tol) ∧
      (∀ s ∈ segments.getLast?, ¬ Scalar.abs (s.final.daysSince final) > tol) ∧
      checkJoints tol 0 segments = .ok () := by
  cases segments with
  | nil => simp [checkCoverage, checkForward, checkJoints]
  | cons first rest =>
    simp only [checkCoverage, setEpoch, bind_eq_ok_iff, List.getLast?_cons, List.head?_cons,
      List.getLastD_eq_getLast?, Option.mem_some_iff, forall_eq']
    by_cases begins : Scalar.abs (first.start.daysSince start) > tol
    · simp [begins, throw, throwThe, MonadExceptOf.throw, bind, Except.bind]
    · by_cases ends : Scalar.abs ((rest.getLast?.getD first).final.daysSince final) > tol
      · simp [begins, ends, throw, throwThe, MonadExceptOf.throw, bind, Except.bind]
      · simp [begins, ends, bind, Except.bind, Unique.exists_iff]

end Checks

/-- Boundaries that are apart by no more than `tol` days: those of successive segments, those of the
leg, and the two of a segment that ends before it starts. -/
structure Covers (segments : List (ThrottleSegment ℝ)) (start final : Epoch ℝ) (tol : ℝ) :
    Prop where
  forward : ∀ s ∈ segments, -tol ≤ s.final.daysSince s.start
  first : ∀ s ∈ segments.head?, |s.start.daysSince start| ≤ tol
  last : ∀ s ∈ segments.getLast?, |s.final.daysSince final| ≤ tol
  joints : segments.IsChain fun s t => |t.start.daysSince s.final| ≤ tol

/-- The segments take up the time from one epoch to another, each from the end of the one before
it. -/
def Fills : List (ThrottleSegment ℝ) → Epoch ℝ → Epoch ℝ → Prop
  | [], start, final => start = final
  | s :: rest, start, final => s.start = start ∧ s.start ≤ s.final ∧ Fills rest s.final final

variable {segments front back : List (ThrottleSegment ℝ)} {start final : Epoch ℝ} {tol : ℝ}

theorem checkCoverage_eq_ok_iff_covers :
    checkCoverage segments (some start) (some final) tol = .ok () ↔
      Covers segments start final tol := by
  have forward (s : ThrottleSegment ℝ) : ¬ s.final.mjd2000 < s.start.mjd2000 - tol ↔
      -tol ≤ s.final.daysSince s.start := by
    change _ ↔ -tol ≤ s.final.mjd2000 - s.start.mjd2000
    rw [not_lt, neg_le_sub_iff_le_add, sub_le_iff_le_add]
  have within (x : ℝ) : ¬ Scalar.abs x > tol ↔ |x| ≤ tol := not_lt
  have joined (x : ℝ) : ¬ x > tol ∧ ¬ x < -tol ↔ |x| ≤ tol := by
    rw [gt_iff_lt, not_lt, not_lt, abs_le, and_comm]
  rw [checkCoverage_eq_ok_iff, checkForward_eq_ok_iff, checkJoints_eq_ok_iff]
  simp only [forward, within, joined]
  constructor
  · rintro ⟨forward, first, last, joints⟩
    exact ⟨forward, first, last, joints⟩
  · rintro ⟨forward, first, last, joints⟩
    exact ⟨forward, first, last, joints⟩

/-- Boundaries that meet exactly are covered under every tolerance. -/
theorem covers_of_joined (htol : 0 ≤ tol) (forward : ∀ s ∈ segments, s.start ≤ s.final)
    (first : segments.head?.map ThrottleSegment.start = some start)
    (last : segments.getLast?.map ThrottleSegment.final = some final)
    (joints : segments.IsChain fun s t => t.start = s.final) :
    Covers segments start final tol := by
  have met (t : Epoch ℝ) : |t.daysSince t| ≤ tol := by
    rw [Epoch.daysSince, sub_self, abs_zero]
    exact htol
  refine ⟨fun s hs => ?_, fun s hs => ?_, fun s hs => ?_, joints.imp fun s t joined => ?_⟩
  · exact (neg_nonpos.mpr htol).trans (sub_nonneg.mpr (forward s hs))
  · rw [Option.mem_def.mp hs, Option.map_some, Option.some.injEq] at first
    rw [first]
    exact met start
  · rw [Option.mem_def.mp hs, Option.map_some, Option.some.injEq] at last
    rw [last]
    exact met final
  · rw [joined]
    exact met s.final

/-- By induction on the segments, each joint adds one tolerance. -/
theorem abs_sum_sub_le {s last : ThrottleSegment ℝ} {rest : List (ThrottleSegment ℝ)}
    (joints : (s :: rest).IsChain fun s t => |t.start.daysSince s.final| ≤ tol)
    (hlast : last ∈ (s :: rest).getLast?) :
    |((s :: rest).map fun s => s.final.daysSince s.start).sum - last.final.daysSince s.start| ≤
      rest.length * tol := by
  induction rest generalizing s with
  | nil =>
    cases hlast
    simp
  | cons t rest ih =>
    obtain ⟨joint, joints⟩ := List.isChain_cons_cons.mp joints
    rw [List.getLast?_cons_cons] at hlast
    have later := ih joints hlast
    have split : ((s :: t :: rest).map fun s => s.final.daysSince s.start).sum -
          last.final.daysSince s.start =
        (((t :: rest).map fun s => s.final.daysSince s.start).sum - last.final.daysSince t.start) -
          t.start.daysSince s.final := by
      rw [List.map_cons, List.sum_cons]
      simp only [Epoch.daysSince]
      ring
    rw [split, List.length_cons, Nat.cast_add_one, add_one_mul]
    exact (abs_sub _ _).trans (add_le_add later joint)

theorem Covers.abs_sum_sub_le (h : Covers segments start final tol) (nonempty : segments ≠ []) :
    |(segments.map fun s => s.final.daysSince s.start).sum - final.daysSince start| ≤
      (segments.length + 1) * tol := by
  obtain ⟨s, rest, rfl⟩ := List.exists_cons_of_ne_nil nonempty
  obtain ⟨last, hlast⟩ : ∃ last, last ∈ (s :: rest).getLast? :=
    ⟨_, List.getLast?_eq_some_getLast nonempty⟩
  have joined := ThrottleSegment.abs_sum_sub_le h.joints hlast
  have begins := h.first s rfl
  have ends := h.last last hlast
  rw [List.length_cons, Nat.cast_add_one]
  simp only [Epoch.daysSince, abs_le] at joined begins ends ⊢
  constructor <;> linarith

/-! ### Segments without gaps and overlaps -/

theorem fills_of_covers (nonempty : segments ≠ []) (h : Covers segments start final 0) :
    Fills segments start final := by
  have met {s t : Epoch ℝ} (h : |t.daysSince s| ≤ 0) : t = s := by
    rw [abs_nonpos_iff, Epoch.daysSince, sub_eq_zero] at h
    cases t
    cases s
    exact congrArg _ h
  induction segments generalizing start with
  | nil => exact absurd rfl nonempty
  | cons s rest ih =>
    have forward := h.forward s List.mem_cons_self
    rw [neg_zero] at forward
    refine ⟨met (h.first s rfl), (sub_nonneg (α := ℝ)).mp forward, ?_⟩
    cases rest with
    | nil => exact met (h.last s rfl)
    | cons t rest =>
      obtain ⟨joint, joints⟩ := List.isChain_cons_cons.mp h.joints
      refine ih (List.cons_ne_nil t rest) ⟨fun u hu => ?_, fun u hu => ?_, fun u hu => ?_, joints⟩
      · exact h.forward u (List.mem_cons_of_mem s hu)
      · cases hu
        exact joint
      · exact h.last u hu

theorem fills_append_iff :
    Fills (front ++ back) start final ↔ ∃ t, Fills front start t ∧ Fills back t final := by
  induction front generalizing start with
  | nil => simp [Fills]
  | cons s front ih => simp only [List.cons_append, Fills, ih, and_assoc, exists_and_left]

theorem Fills.le (h : Fills segments start final) : start.mjd2000 ≤ final.mjd2000 := by
  induction segments generalizing start with
  | nil => exact (congrArg Epoch.mjd2000 h).le
  | cons s rest ih =>
    obtain ⟨rfl, forward, h⟩ := h
    exact forward.trans (ih h)

theorem Fills.start_le_of_mem (h : Fills segments start final) {s : ThrottleSegment ℝ}
    (hs : s ∈ segments) : start.mjd2000 ≤ s.start.mjd2000 := by
  obtain ⟨front, back, rfl⟩ := List.append_of_mem hs
  obtain ⟨t, before, rfl, -, -⟩ := fills_append_iff.mp h
  exact before.le

/-- The time is in the first segment, or after it and so in the rest. -/
theorem Fills.existsUnique (h : Fills segments start final) {t : Epoch ℝ} (begun : start ≤ t)
    (ends : t < final) :
    ∃! k : ℕ, ∃ s : ThrottleSegment ℝ, segments[k]? = some s ∧ s.start ≤ t ∧ t < s.final := by
  induction segments generalizing start with
  | nil =>
    cases h
    exact absurd begun (Epoch.not_le_real.mpr ends)
  | cons s rest ih =>
    obtain ⟨rfl, -, h⟩ := h
    by_cases inside : t < s.final
    · refine ⟨0, ⟨s, rfl, begun, inside⟩, ?_⟩
      rintro (_ | k) ⟨u, hu, entered, -⟩
      · rfl
      · have later := h.start_le_of_mem (List.mem_of_getElem? hu)
        exact absurd (later.trans entered) (Epoch.not_le_real.mpr inside)
    · obtain ⟨k, holds, unique⟩ := ih h (Epoch.not_lt_real.mp inside)
      refine ⟨k + 1, holds, ?_⟩
      rintro (_ | j) ⟨u, hu, entered, left⟩
      · cases hu
        exact absurd left inside
      · rw [unique j ⟨u, hu, entered, left⟩]

/-- What the test of coverage certifies. Segments that pass it last as long as the leg, up to one
tolerance for each boundary; those that pass it without tolerance hold every time of the leg exactly
once. And segments from the start of the leg to its end, each from the end of the one before it,
pass it. -/
theorem checkCoverage_certifies (start final : Epoch ℝ) (nonempty : segments ≠ []) :
    (∀ tol, 0 ≤ tol → checkCoverage segments (some start) (some final) tol = .ok () →
      |(segments.map fun s => s.final.daysSince s.start).sum - final.daysSince start| ≤
        (segments.length + 1) * tol) ∧
    (checkCoverage segments (some start) (some final) 0 = .ok () →
      start ≤ final ∧ ∀ t, start ≤ t → t < final →
        ∃! k : ℕ, ∃ s : ThrottleSegment ℝ, segments[k]? = some s ∧ s.start ≤ t ∧ t < s.final) ∧
    ((∀ s ∈ segments, s.start ≤ s.final) →
      segments.head?.map ThrottleSegment.start = some start →
      segments.getLast?.map ThrottleSegment.final = some final →
      segments.IsChain (fun s t => t.start = s.final) →
      ∀ tol, 0 ≤ tol → checkCoverage segments (some start) (some final) tol = .ok ()) := by
  simp only [checkCoverage_eq_ok_iff_covers]
  refine ⟨fun tol _ covers => covers.abs_sum_sub_le nonempty, fun covers => ?_,
    fun forward first last joints tol htol => covers_of_joined htol forward first last joints⟩
  have fills := fills_of_covers nonempty covers
  exact ⟨fills.le, fun t begun ends => fills.existsUnique begun ends⟩

/-- Three segments that meet, of which one takes no time: the time where all of them meet belongs to
the last one. And two segments that are half a day apart, under a tolerance of as much. -/
theorem checkCoverage_certifies_threeSegments :
    let meeting : List (ThrottleSegment ℝ) :=
      [⟨⟨0⟩, ⟨1⟩, .zero⟩, ⟨⟨1⟩, ⟨1⟩, .zero⟩, ⟨⟨1⟩, ⟨3⟩, .zero⟩]
    let apart : List (ThrottleSegment ℝ) := [⟨⟨0⟩, ⟨1⟩, .zero⟩, ⟨⟨3 / 2⟩, ⟨3⟩, .zero⟩]
    (checkCoverage meeting (some ⟨0⟩) (some ⟨3⟩) 0 = .ok () ∧
      ∃! k : ℕ, ∃ s : ThrottleSegment ℝ, meeting[k]? = some s ∧ s.start ≤ ⟨1⟩ ∧ ⟨1⟩ < s.final) ∧
    checkCoverage apart (some ⟨0⟩) (some ⟨3⟩) (1 / 2) = .ok () ∧
      |(apart.map fun s => s.final.daysSince s.start).sum - Epoch.daysSince ⟨3⟩ ⟨0⟩| ≤
        (apart.length + 1) * (1 / 2) := by
  intro meeting apart
  obtain ⟨-, placed, accepted⟩ := @checkCoverage_certifies meeting ⟨0⟩ ⟨3⟩ (by simp [meeting])
  obtain ⟨close, -, -⟩ := @checkCoverage_certifies apart ⟨0⟩ ⟨3⟩ (by simp [apart])
  have met : checkCoverage meeting (some ⟨0⟩) (some ⟨3⟩) 0 = .ok () := by
    refine accepted ?_ rfl rfl ?_ 0 le_rfl
    · intro s hs
      simp only [meeting, List.mem_cons, List.not_mem_nil, or_false] at hs
      obtain rfl | rfl | rfl := hs
      · exact zero_le_one (α := ℝ)
      · exact le_refl (1 : ℝ)
      · exact show (1 : ℝ) ≤ 3 by norm_num
    · simp [meeting]
  have covered : checkCoverage apart (some ⟨0⟩) (some ⟨3⟩) (1 / 2) = .ok () := by
    rw [checkCoverage_eq_ok_iff_covers]
    constructor
    · intro s hs
      simp only [apart, List.mem_cons, List.not_mem_nil, or_false] at hs
      obtain rfl | rfl := hs <;> norm_num [Epoch.daysSince]
    · rintro s ⟨⟩
      norm_num [Epoch.daysSince]
    · rintro s ⟨⟩
      norm_num [Epoch.daysSince]
    · norm_num [apart, Epoch.daysSince, abs_of_pos]
  exact ⟨⟨met, (placed met).2 ⟨1⟩ (zero_le_one (α := ℝ)) (show (1 : ℝ) < 3 by norm_num)⟩, covered,
    close (1 / 2) (by norm_num) covered⟩

end ThrottleSegment

end LowThrust
