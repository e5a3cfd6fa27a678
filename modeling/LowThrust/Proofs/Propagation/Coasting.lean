import Mathlib
import LowThrust.Leg.Shooting
import LowThrust.Propagation.Trajectory
import LowThrust.Proofs.Exact.Real
import LowThrust.Proofs.Leg.Step

/-!
What a propagation does from one maneuver to the next, for an integrator that solves coasts.
-/

namespace LowThrust

/-- Over a span of time the integrator gives the state at its start and the one that a coast
reaches, with the mass unchanged; and it gives a result exactly if the coast does. -/
def Integrator.CoastsLike (integrator : Integrator ℝ) (config : IntegratorConfig ℝ) (mu : ℝ)
    (coast : Coast ℝ) : Prop :=
  ∀ s a b rows, a < b →
    (integrator.sample config (State.coastRate mu) a b s [a, b] = .ok rows ↔
      ∃ m, coast s.toMotion (b - a) = .ok m ∧ rows = [(a, s), (b, ⟨m, s.mass⟩)])

namespace Maneuver

theorem sort_of_sorted {ms : List (Maneuver ℝ)}
    (h : ms.Pairwise fun a b => a.epoch.mjd2000 ≤ b.epoch.mjd2000) : sort ms = ms := by
  have numbers : (ms.all fun m => m.epoch.same m.epoch) = true := by simp [Epoch.same]
  rw [sort, if_pos numbers]
  refine List.mergeSort_of_pairwise (h.imp fun {a b} le => ?_)
  have : ¬ b.epoch < a.epoch := not_lt.mpr le
  simpa using this

end Maneuver

theorem Span.between_cons {start : Epoch ℝ} {duration current : ℝ} {m : Maneuver ℝ}
    (hs : 0 ≤ m.time start) (hd : m.time start ≤ duration) (ms : List (Maneuver ℝ)) :
    between start duration current (m :: ms) =
      ⟨current, m.time start, some m⟩ :: between start duration (m.time start) ms := by
  rw [between, if_neg]
  rw [Exact.literal_zero]
  exact not_or.mpr ⟨not_lt.mpr hs, not_lt.mpr hd⟩

/-- The row of a propagation with its time as an epoch. -/
noncomputable def TrajectoryPoint.dated (start : Epoch ℝ) (row : ℝ × State ℝ) : TrajectoryPoint ℝ :=
  ⟨⟨start.mjd2000 + row.1 * daysPerSecond⟩, row.2⟩

theorem Trajectory.final_map_eq_ok_iff {rows : List (ℝ × State ℝ)}
    {point : ℝ × State ℝ → TrajectoryPoint ℝ} (h : ∀ row, (point row).state = row.2)
    {s : State ℝ} :
    Trajectory.final (rows.map point) = .ok s ↔ ∃ t, rows.getLast? = some (t, s) := by
  rw [Trajectory.final, List.getLast?_map]
  cases rows.getLast? with
  | none => simp
  | some row => simp [h, Prod.ext_iff]

namespace Propagator

variable {integrator : Integrator ℝ} {p : Propagator ℝ} {coast : Coast ℝ}

/-- What the maneuver at the end of a span makes of the state reached there. -/
def maneuvered {α : Type} [Scalar α] (span : Span α) (reached : State α) :
    Except (Fault α) (State α) :=
  match span.maneuver with
  | none => .ok reached
  | some m => m.apply reached

theorem flySpans_cons_eq_ok_iff {outputStep : Option ℝ} {s : State ℝ} {span : Span ℝ}
    {spans : List (Span ℝ)} {rows : List (ℝ × State ℝ)} :
    p.flySpans integrator outputStep s (span :: spans) = .ok rows ↔
      ∃ first reached next rest,
        p.coastSpan integrator outputStep s span = .ok (first, reached) ∧
          maneuvered span reached = .ok next ∧
          p.flySpans integrator outputStep next spans = .ok rest ∧ rows = first ++ rest := by
  obtain ⟨start, final, _ | m⟩ := span <;>
    simp only [flySpans, maneuvered, bind_eq_ok_iff, pure_eq_ok_iff, pure_bind, Prod.exists,
      Except.ok.injEq]
  · constructor
    · rintro ⟨first, reached, hs, rest, hrest, rfl⟩
      exact ⟨first, reached, reached, rest, hs, rfl, hrest, rfl⟩
    · rintro ⟨first, reached, _, rest, hs, rfl, hrest, rfl⟩
      exact ⟨first, reached, hs, rest, hrest, rfl⟩
  · constructor
    · rintro ⟨first, reached, hs, next, hm, rest, hrest, rfl⟩
      exact ⟨first, reached, next, rest, hs, hm, hrest, rfl⟩
    · rintro ⟨first, reached, next, rest, hs, hm, hrest, rfl⟩
      exact ⟨first, reached, hs, next, hm, rest, hrest, rfl⟩

theorem coastSpan_of_lt (h : integrator.CoastsLike p.config.integrator p.mu coast) {span : Span ℝ}
    (lt : span.start < span.final) (s : State ℝ) (rows : List (ℝ × State ℝ)) (reached : State ℝ) :
    p.coastSpan integrator none s span = .ok (rows, reached) ↔
      ∃ m, coast s.toMotion (span.final - span.start) = .ok m ∧
        rows = [(span.start, s), (span.final, ⟨m, s.mass⟩)] ∧ reached = ⟨m, s.mass⟩ := by
  simp only [coastSpan, gt_iff_lt, lt, if_true, Span.outputTimes, bind_eq_ok_iff, pure_eq_ok_iff,
    Except.ok.injEq, exists_eq_left', h _ _ _ _ lt, Prod.mk.injEq]
  constructor
  · rintro ⟨_, ⟨m, hm, rfl⟩, rfl, rfl⟩
    exact ⟨m, hm, rfl, rfl⟩
  · rintro ⟨m, hm, rfl, rfl⟩
    exact ⟨_, ⟨m, hm, rfl⟩, rfl, rfl⟩

theorem coastSpan_of_eq {outputStep : Option ℝ} {s : State ℝ} {span : Span ℝ}
    (eq : span.start = span.final) : p.coastSpan integrator outputStep s span = .ok ([], s) := by
  rw [coastSpan, eq, if_neg (lt_irrefl _)]

/-- A span of no length is a coast of no time. -/
theorem coastSpan_reaches (h : integrator.CoastsLike p.config.integrator p.mu coast)
    (h₀ : ∀ m, coast m 0 = .ok m) {span : Span ℝ} (le : span.start ≤ span.final)
    (s reached : State ℝ) :
    (∃ rows, p.coastSpan integrator none s span = .ok (rows, reached)) ↔
      ∃ m, coast s.toMotion (span.final - span.start) = .ok m ∧ reached = ⟨m, s.mass⟩ := by
  rcases le.lt_or_eq with lt | eq
  · simp only [coastSpan_of_lt h lt]
    constructor
    · rintro ⟨_, m, hm, rfl, rfl⟩
      exact ⟨m, hm, rfl⟩
    · rintro ⟨m, hm, rfl⟩
      exact ⟨_, m, hm, rfl, rfl⟩
  · simp only [coastSpan_of_eq eq, eq, sub_self, h₀, Except.ok.injEq, Prod.mk.injEq,
      exists_eq_left']
    exact eq_comm

/-- If no maneuver is left for the end, the last span has rows. -/
theorem flySpans_between_ne_nil (h : integrator.CoastsLike p.config.integrator p.mu coast)
    {start : Epoch ℝ} {duration : ℝ} {ms : List (Maneuver ℝ)}
    (early : ∀ m ∈ ms, m.time start < duration) {current : ℝ} (lt : current < duration)
    {s : State ℝ} {rows : List (ℝ × State ℝ)}
    (flown : p.flySpans integrator none s (Span.between start duration current ms) = .ok rows) :
    rows ≠ [] := by
  induction ms generalizing current s rows with
  | nil =>
    obtain ⟨first, reached, _, rest, hs, -, -, rfl⟩ := flySpans_cons_eq_ok_iff.mp flown
    obtain ⟨m, -, rfl, -⟩ := (coastSpan_of_lt h lt ..).mp hs
    simp
  | cons m ms ih =>
    have early_rest : ∀ m ∈ ms, m.time start < duration :=
      fun m hm => early m (List.mem_cons_of_mem _ hm)
    rw [Span.between] at flown
    split at flown
    · exact ih early_rest lt flown
    · obtain ⟨first, reached, next, rest, -, -, hrest, rfl⟩ := flySpans_cons_eq_ok_iff.mp flown
      exact List.append_ne_nil_of_right_ne_nil first
        (ih early_rest (early m List.mem_cons_self) hrest)

/-- A propagation gives rows exactly if its spans do, and dates them. -/
theorem propagate_eq_ok_iff {outputStep : Option ℝ} {s : State ℝ} {start : Epoch ℝ} {duration : ℝ}
    (hd : 0 < duration) {ms : List (Maneuver ℝ)} {trajectory : Trajectory ℝ} :
    p.propagate integrator s start duration ms outputStep = .ok trajectory ↔
      ∃ rows, p.flySpans integrator outputStep s
          (Span.between start duration 0 (Maneuver.sort ms)) = .ok rows ∧
        trajectory = rows.map (TrajectoryPoint.dated start) := by
  simp only [propagate, Exact.literal_zero, gt_iff_lt, hd, if_true, bind_eq_ok_iff, pure_eq_ok_iff]
  exact Iff.rfl

/-- The final state of a propagation is that of the last row of its spans. -/
theorem final_propagate_eq_ok_iff {s final : State ℝ} {start : Epoch ℝ} {duration : ℝ}
    {ms : List (Maneuver ℝ)} (hd : 0 < duration)
    (sorted : ms.Pairwise fun a b => a.epoch.mjd2000 ≤ b.epoch.mjd2000) :
    p.propagate integrator s start duration ms none >>= Trajectory.final = .ok final ↔
      ∃ rows t, p.flySpans integrator none s (Span.between start duration 0 ms) = .ok rows ∧
        rows.getLast? = some (t, final) := by
  simp only [bind_eq_ok_iff, propagate_eq_ok_iff hd, Maneuver.sort_of_sorted sorted]
  constructor
  · rintro ⟨_, ⟨rows, flown, rfl⟩, last⟩
    obtain ⟨t, last⟩ := (Trajectory.final_map_eq_ok_iff fun _ => rfl).mp last
    exact ⟨rows, t, flown, last⟩
  · rintro ⟨rows, t, flown, last⟩
    exact ⟨_, ⟨rows, flown, rfl⟩, (Trajectory.final_map_eq_ok_iff fun _ => rfl).mpr ⟨t, last⟩⟩

end Propagator

end LowThrust
