import Mathlib
import LowThrust.Proofs.Propagation.Coasting
import LowThrust.Proofs.Shooting.Reference
import LowThrust.Sorting.Lemmas

/-!
Which maneuvers reach the final state of a propagation. Rows are taken down on the way, so a
maneuver counts exactly if some time is left after it: one at the very end of the propagation is
applied, but no row is taken down any more.
-/

namespace LowThrust

/-- Over a span of time the integrator gives a row for each time that is asked for, all with the
mass at the start. -/
def Integrator.Samples (integrator : Integrator ℝ) (config : IntegratorConfig ℝ) (mu : ℝ) : Prop :=
  ∀ a b s times rows, a < b →
    integrator.sample config (State.coastRate mu) a b s times = .ok rows →
      rows.map Prod.fst = times ∧ ∀ row ∈ rows, row.2.mass = s.mass

namespace Maneuver

/-! ### Effects -/

/-- The components are those of a vector, and the specific impulse can be divided by. -/
structure Sound (m : Maneuver ℝ) : Prop where
  components : ∃ dv, Vec3.spread? m.dv = some dv
  isp : m.isp ≠ some 0

/-- The change of velocity. -/
noncomputable def deltaV (m : Maneuver ℝ) : Vec3 ℝ := (Vec3.spread? m.dv).getD .zero

/-- The fraction of mass that is left. -/
noncomputable def ratio (m : Maneuver ℝ) : ℝ :=
  match m.isp with
  | none => 1
  | some isp => Real.exp (-m.size / (isp * standardGravity * kmPerMetre))

noncomputable def effect (m : Maneuver ℝ) (s : State ℝ) : State ℝ :=
  ⟨⟨s.position, s.velocity + m.deltaV⟩, s.mass * m.ratio⟩

/-- Changes of velocity one after the other add up. -/
noncomputable def total (ms : List (Maneuver ℝ)) : Vec3 ℝ :=
  ⟨(ms.map fun m => m.deltaV.x).sum, (ms.map fun m => m.deltaV.y).sum,
    (ms.map fun m => m.deltaV.z).sum⟩

/-- The effect of maneuvers at the same time. -/
noncomputable def effects (ms : List (Maneuver ℝ)) (s : State ℝ) : State ℝ :=
  ⟨⟨s.position, s.velocity + total ms⟩, s.mass * (ms.map ratio).prod⟩

theorem effects_nil (s : State ℝ) : effects [] s = s := by
  simp [effects, total, Vec3.add_zero_real]

theorem effects_cons (m : Maneuver ℝ) (ms : List (Maneuver ℝ)) (s : State ℝ) :
    effects (m :: ms) s = effects ms (m.effect s) := by
  simp only [effects, effect, total, List.map_cons, List.sum_cons, List.prod_cons, Vec3.add_real,
    add_assoc, mul_assoc]

theorem effects_perm {ms ms' : List (Maneuver ℝ)} (h : ms.Perm ms') : effects ms = effects ms' := by
  funext s
  simp only [effects, total, (h.map _).sum_eq, (h.map _).prod_eq]

/-- Maneuvers leave a state as it is if they add up to no change of velocity, and use no mass or
have none to use. -/
theorem effects_eq_self_iff (ms : List (Maneuver ℝ)) (s : State ℝ) :
    effects ms s = s ↔ total ms = ⟨0, 0, 0⟩ ∧ (s.mass = 0 ∨ (ms.map ratio).prod = 1) := by
  obtain ⟨⟨r, v⟩, mass⟩ := s
  have velocity : v + total ms = v ↔ total ms = ⟨0, 0, 0⟩ := by
    simp [Vec3.ext_iff, Vec3.add_real]
  simp [effects, velocity, mul_right_eq_self₀, or_comm]

theorem massRatio_of_isp_ne {m : Maneuver ℝ} (h : m.isp ≠ some 0) : m.massRatio = .ok m.ratio := by
  rw [massRatio, ratio]
  cases hm : m.isp with
  | none => simp
  | some isp =>
    have isp_ne : isp ≠ 0 := fun zero => h (hm.trans (congrArg some zero))
    have divisor : isp * (standardGravity : ℝ) * (kmPerMetre : ℝ) ≠ 0 :=
      mul_ne_zero (mul_ne_zero isp_ne standardGravity_pos.ne') kmPerMetre_pos.ne'
    simp [checkedDiv, divisor, Except.map]

theorem apply_of_sound {m : Maneuver ℝ} (h : m.Sound) (s : State ℝ) :
    m.apply s = .ok (m.effect s) := by
  obtain ⟨dv, hdv⟩ := h.components
  rw [apply, massRatio_of_isp_ne h.isp, hdv, effect, deltaV, hdv]
  rfl

/-! ### Times -/

variable (start : Epoch ℝ) (duration : ℝ)

/-- The maneuver lies in the propagation, the end included. -/
noncomputable def isWithin (m : Maneuver ℝ) : Bool :=
  decide (0 ≤ m.time start ∧ m.time start ≤ duration)

/-- The maneuver lies in the propagation, and some time is left after it. -/
noncomputable def isBeforeEnd (m : Maneuver ℝ) : Bool :=
  decide (0 ≤ m.time start ∧ m.time start < duration)

/-- The maneuver lies at the end. -/
noncomputable def isAtEnd (m : Maneuver ℝ) : Bool := decide (m.time start = duration)

theorem time_le_time {a b : Maneuver ℝ} (h : a.epoch.mjd2000 ≤ b.epoch.mjd2000) :
    a.time start ≤ b.time start :=
  mul_le_mul_of_nonneg_right (sub_le_sub_right h _) secondsPerDay_pos.le

theorem sort_eq (ms : List (Maneuver ℝ)) :
    sort ms = ms.mergeSort fun a b => !decide (b.epoch < a.epoch) := by
  rw [sort, if_pos (by simp [Epoch.same])]

/-- In every arithmetic, also where an epoch compares to nothing. -/
theorem sort_perm {α : Type} [Scalar α] (ms : List (Maneuver α)) : (sort ms).Perm ms := by
  rw [sort]
  split
  · exact List.mergeSort_perm ms _
  · exact Sorting.sort_perm _ ms

theorem pairwise_sort (ms : List (Maneuver ℝ)) :
    (sort ms).Pairwise fun a b => a.time start ≤ b.time start := by
  have ordered (a b : Maneuver ℝ) :
      (!decide (b.epoch < a.epoch)) = true ↔ a.epoch.mjd2000 ≤ b.epoch.mjd2000 := by
    rw [Bool.not_eq_true', decide_eq_false_iff_not]
    change ¬ b.epoch.mjd2000 < a.epoch.mjd2000 ↔ _
    exact not_lt
  rw [sort_eq]
  refine (List.pairwise_mergeSort ?_ ?_ ms).imp fun {a b} h =>
    time_le_time start ((ordered a b).mp h)
  · intro a b c hab hbc
    rw [ordered] at *
    exact hab.trans hbc
  · intro a b
    rw [Bool.or_eq_true, ordered, ordered]
    exact le_total _ _

theorem filter_isBeforeEnd_of_late {ms : List (Maneuver ℝ)}
    (late : ∀ m ∈ ms, duration ≤ m.time start) : ms.filter (·.isBeforeEnd start duration) = [] := by
  refine List.filter_eq_nil_iff.mpr fun m hm => ?_
  rw [isBeforeEnd, decide_eq_true_iff]
  rintro ⟨-, early⟩
  exact (late m hm).not_gt early

/-- In order of time, those at the end follow the others that lie in the propagation. -/
theorem filter_isWithin {ms : List (Maneuver ℝ)}
    (sorted : ms.Pairwise fun a b => a.time start ≤ b.time start) (hd : 0 < duration) :
    ms.filter (·.isWithin start duration) =
      ms.filter (·.isBeforeEnd start duration) ++ ms.filter (·.isAtEnd start duration) := by
  induction ms with
  | nil => rfl
  | cons m ms ih =>
    obtain ⟨first, sorted⟩ := List.pairwise_cons.mp sorted
    rcases lt_or_ge (m.time start) duration with early | late
    · have notYet : ¬ m.isAtEnd start duration = true := by
        rw [isAtEnd, decide_eq_true_iff]
        exact early.ne
      have same : m.isWithin start duration = m.isBeforeEnd start duration := by
        rw [isWithin, isBeforeEnd, decide_eq_decide]
        exact and_congr_right fun _ => iff_of_true early.le early
      rw [List.filter_cons_of_neg notYet, List.filter_cons, List.filter_cons, same, ih sorted]
      split
      · rfl
      · rfl
    · have late : ∀ m' ∈ m :: ms, duration ≤ m'.time start :=
        List.forall_mem_cons.mpr ⟨late, fun m' hm' => late.trans (first m' hm')⟩
      rw [filter_isBeforeEnd_of_late _ _ late, List.nil_append]
      refine List.filter_congr fun m' hm' => ?_
      rw [isWithin, isAtEnd, decide_eq_decide]
      constructor
      · rintro ⟨-, le⟩
        exact le_antisymm le (late m' hm')
      · intro now
        exact ⟨now ▸ hd.le, now.le⟩

end Maneuver

/-! ### Flights from maneuver to maneuver -/

theorem Span.outputTimes_ne_nil {outputStep : Option ℝ} {span : Span ℝ} {times : List ℝ}
    (h : span.outputTimes outputStep = .ok times) : times ≠ [] := by
  cases outputStep with
  | none =>
    cases h
    simp
  | some step =>
    obtain ⟨n, -, h⟩ := bind_eq_ok_iff.mp h
    rw [pure_eq_ok_iff.mp h, closeAt]
    split
    · simp
    · next last =>
      split
      · simp
      · exact List.ne_nil_of_mem (List.mem_of_getLast? last)

namespace Propagator

variable (integrator : Integrator ℝ) (p : Propagator ℝ) (outputStep : Option ℝ)

/-- The state at the end of a coast from one time to another. -/
noncomputable def reach (s : State ℝ) (a b : ℝ) : Except (Fault ℝ) (State ℝ) :=
  (p.coastSpan integrator outputStep s ⟨a, b, none⟩).map Prod.snd

/-- The final state by definition: a coast to each maneuver in turn, its effect, and a coast to the
end. -/
noncomputable def flight (start : Epoch ℝ) (duration : ℝ) :
    ℝ → State ℝ → List (Maneuver ℝ) → Except (Fault ℝ) (State ℝ)
  | current, s, [] => p.reach integrator outputStep s current duration
  | current, s, m :: ms => do
    let reached ← p.reach integrator outputStep s current (m.time start)
    flight start duration (m.time start) (m.effect reached) ms

variable {integrator p outputStep}

theorem reach_eq_ok_iff {s reached : State ℝ} {a b : ℝ} (maneuver : Option (Maneuver ℝ)) :
    p.reach integrator outputStep s a b = .ok reached ↔
      ∃ rows, p.coastSpan integrator outputStep s ⟨a, b, maneuver⟩ = .ok (rows, reached) := by
  change (p.coastSpan integrator outputStep s ⟨a, b, maneuver⟩).map Prod.snd = _ ↔ _
  cases p.coastSpan integrator outputStep s ⟨a, b, maneuver⟩ with
  | error => simp [Except.map]
  | ok r =>
    obtain ⟨rows, reached'⟩ := r
    simp [Except.map]

theorem reach_self (s : State ℝ) (a : ℝ) : p.reach integrator outputStep s a a = .ok s := by
  rw [reach, coastSpan_of_eq rfl]
  rfl

/-- The last row of a span that takes time is the state reached, with the mass unchanged. -/
theorem last_of_coastSpan (hi : integrator.Samples p.config.integrator p.mu) {s reached : State ℝ}
    {span : Span ℝ} (lt : span.start < span.final) {rows : List (ℝ × State ℝ)}
    (h : p.coastSpan integrator outputStep s span = .ok (rows, reached)) :
    (∃ t, rows.getLast? = some (t, reached)) ∧ reached.mass = s.mass := by
  rw [coastSpan, if_pos lt] at h
  obtain ⟨times, listed, h⟩ := bind_eq_ok_iff.mp h
  obtain ⟨rows', sampled, h⟩ := bind_eq_ok_iff.mp h
  obtain ⟨rfl, rfl⟩ := Prod.mk.inj (pure_eq_ok_iff.mp h)
  obtain ⟨clocks, masses⟩ := hi _ _ _ _ _ lt sampled
  have some : rows ≠ [] := by
    rintro rfl
    exact Span.outputTimes_ne_nil listed clocks.symm
  rw [List.getLast?_eq_some_getLast some]
  exact ⟨⟨_, rfl⟩, masses _ (List.getLast_mem some)⟩

theorem mass_of_reach (hi : integrator.Samples p.config.integrator p.mu) {s reached : State ℝ}
    {a b : ℝ} (h : p.reach integrator outputStep s a b = .ok reached) : reached.mass = s.mass := by
  obtain ⟨rows, h⟩ := (reach_eq_ok_iff none).mp h
  by_cases lt : a < b
  · exact (last_of_coastSpan hi lt h).2
  · rw [coastSpan, if_neg lt] at h
    cases h
    rfl

variable {start : Epoch ℝ} {duration : ℝ}

/-- What is at the end or later leaves no rows. -/
theorem flySpans_at_end {ms : List (Maneuver ℝ)} (sound : ∀ m ∈ ms, m.Sound)
    (late : ∀ m ∈ ms, duration ≤ m.time start) (s : State ℝ) :
    p.flySpans integrator outputStep s (Span.between start duration duration ms) = .ok [] := by
  induction ms generalizing s with
  | nil => exact flySpans_cons_eq_ok_iff.mpr ⟨[], s, s, [], coastSpan_of_eq rfl, rfl, rfl, rfl⟩
  | cons m ms ih =>
    have rest := ih (fun m hm => sound m (List.mem_cons_of_mem _ hm))
      fun m hm => late m (List.mem_cons_of_mem _ hm)
    rw [Span.between]
    split
    · exact rest s
    · next inside =>
      have now : m.time start = duration :=
        le_antisymm (not_lt.mp (not_or.mp inside).2) (late m List.mem_cons_self)
      have applied := Maneuver.apply_of_sound (sound m List.mem_cons_self) s
      rw [now]
      exact flySpans_cons_eq_ok_iff.mpr
        ⟨[], s, m.effect s, [], coastSpan_of_eq rfl, applied, rest _, rfl⟩

/-- How a maneuver that comes next stands to the propagation: outside of it, before its end, or at
its end together with all that follow. -/
theorem next_cases (duration : ℝ) {m : Maneuver ℝ} {ms : List (Maneuver ℝ)}
    (first : ∀ m' ∈ ms, m.time start ≤ m'.time start) (current : ℝ) :
    (Span.between start duration current (m :: ms) = Span.between start duration current ms ∧
        (m :: ms).filter (·.isBeforeEnd start duration) =
          ms.filter (·.isBeforeEnd start duration)) ∨
      Span.between start duration current (m :: ms) =
          ⟨current, m.time start, some m⟩ :: Span.between start duration (m.time start) ms ∧
        (m.time start < duration ∧
            (m :: ms).filter (·.isBeforeEnd start duration) =
              m :: ms.filter (·.isBeforeEnd start duration) ∨
          m.time start = duration ∧ (m :: ms).filter (·.isBeforeEnd start duration) = []) := by
  rw [Span.between, Exact.literal_zero]
  split
  · next outside =>
    refine .inl ⟨rfl, List.filter_cons_of_neg ?_⟩
    rw [Maneuver.isBeforeEnd, decide_eq_true_iff]
    rintro ⟨after, before⟩
    exact outside.elim (not_lt.mpr after) (not_lt.mpr before.le)
  · next inside =>
    obtain ⟨after, before⟩ := not_or.mp inside
    refine .inr ⟨rfl, ?_⟩
    rcases (not_lt.mp before).lt_or_eq with lt | eq
    · refine .inl ⟨lt, List.filter_cons_of_pos ?_⟩
      rw [Maneuver.isBeforeEnd, decide_eq_true_iff]
      exact ⟨not_lt.mp after, lt⟩
    · have late : ∀ m' ∈ m :: ms, duration ≤ m'.time start :=
        List.forall_mem_cons.mpr ⟨eq.ge, fun m' hm' => eq.ge.trans (first m' hm')⟩
      exact .inr ⟨eq, Maneuver.filter_isBeforeEnd_of_late _ _ late⟩

/-- The last row is the state that the flight reaches by the maneuvers that leave some time. -/
theorem flight_of_flySpans (hi : integrator.Samples p.config.integrator p.mu)
    {ms : List (Maneuver ℝ)} (sound : ∀ m ∈ ms, m.Sound)
    (sorted : ms.Pairwise fun a b => a.time start ≤ b.time start) {current : ℝ}
    (lt : current < duration) {s : State ℝ} {rows : List (ℝ × State ℝ)}
    (flown : p.flySpans integrator outputStep s (Span.between start duration current ms) =
      .ok rows) :
    ∃ t final, rows.getLast? = some (t, final) ∧
      p.flight integrator outputStep start duration current s
        (ms.filter (·.isBeforeEnd start duration)) = .ok final := by
  -- There is time left at `current`. A maneuver before the end leaves some, so that rows follow it;
  -- from one at the end on there are none, and the last row is that of the coast to it.
  induction ms generalizing current s rows with
  | nil =>
    obtain ⟨first, reached, _, rest, coasted, -, none, rfl⟩ := flySpans_cons_eq_ok_iff.mp flown
    cases none
    obtain ⟨⟨t, last⟩, -⟩ := last_of_coastSpan hi lt coasted
    rw [List.append_nil]
    exact ⟨t, reached, last, (reach_eq_ok_iff none).mpr ⟨first, coasted⟩⟩
  | cons m ms ih =>
    obtain ⟨first, sorted⟩ := List.pairwise_cons.mp sorted
    have sound_rest : ∀ m ∈ ms, m.Sound := fun m hm => sound m (List.mem_cons_of_mem _ hm)
    obtain ⟨spans, kept⟩ | ⟨spans, ⟨before, kept⟩ | ⟨now, kept⟩⟩ :=
      next_cases duration first current
    · rw [spans] at flown
      rw [kept]
      exact ih sound_rest sorted lt flown
    · rw [spans] at flown
      obtain ⟨passed, reached, next, rest, coasted, applied, onward, rfl⟩ :=
        flySpans_cons_eq_ok_iff.mp flown
      obtain rfl : m.effect reached = next :=
        Except.ok.inj ((Maneuver.apply_of_sound (sound m List.mem_cons_self) _).symm.trans applied)
      obtain ⟨t, final, last, goes⟩ := ih sound_rest sorted before onward
      have some : rest ≠ [] := List.ne_nil_of_mem (List.mem_of_getLast? last)
      refine ⟨t, final, by rw [List.getLast?_append_of_ne_nil _ some, last], ?_⟩
      rw [kept, flight, (reach_eq_ok_iff _).mpr ⟨passed, coasted⟩]
      exact goes
    · rw [spans] at flown
      obtain ⟨passed, reached, next, rest, coasted, -, onward, rfl⟩ :=
        flySpans_cons_eq_ok_iff.mp flown
      have nothing : p.flySpans integrator outputStep next
          (Span.between start duration duration ms) = .ok [] :=
        flySpans_at_end sound_rest (fun m' hm' => now.ge.trans (first m' hm')) next
      rw [now] at coasted onward
      cases nothing.symm.trans onward
      obtain ⟨⟨t, last⟩, -⟩ := last_of_coastSpan hi lt coasted
      rw [List.append_nil, kept]
      exact ⟨t, reached, last, (reach_eq_ok_iff _).mpr ⟨passed, coasted⟩⟩

/-- A propagation gives a result if the flight does. -/
theorem exists_flySpans {ms : List (Maneuver ℝ)} (sound : ∀ m ∈ ms, m.Sound)
    (sorted : ms.Pairwise fun a b => a.time start ≤ b.time start) {current : ℝ}
    {s final : State ℝ}
    (goes : p.flight integrator outputStep start duration current s
      (ms.filter (·.isBeforeEnd start duration)) = .ok final) :
    ∃ rows, p.flySpans integrator outputStep s (Span.between start duration current ms) =
      .ok rows := by
  induction ms generalizing current s with
  | nil =>
    obtain ⟨rows, coasted⟩ := (reach_eq_ok_iff none).mp goes
    exact ⟨_, flySpans_cons_eq_ok_iff.mpr ⟨rows, final, final, [], coasted, rfl, rfl, rfl⟩⟩
  | cons m ms ih =>
    obtain ⟨first, sorted⟩ := List.pairwise_cons.mp sorted
    have sound_rest : ∀ m ∈ ms, m.Sound := fun m hm => sound m (List.mem_cons_of_mem _ hm)
    have applied := Maneuver.apply_of_sound (sound m List.mem_cons_self)
    obtain ⟨spans, kept⟩ | ⟨spans, ⟨before, kept⟩ | ⟨now, kept⟩⟩ :=
      next_cases duration first current
    · rw [kept] at goes
      rw [spans]
      exact ih sound_rest sorted goes
    · rw [kept] at goes
      obtain ⟨reached, hr, goes⟩ := bind_eq_ok_iff.mp goes
      obtain ⟨passed, coasted⟩ := (reach_eq_ok_iff (some m)).mp hr
      obtain ⟨rest, flown⟩ := ih sound_rest sorted goes
      rw [spans]
      exact ⟨_, flySpans_cons_eq_ok_iff.mpr
        ⟨passed, reached, _, rest, coasted, applied reached, flown, rfl⟩⟩
    · rw [kept] at goes
      obtain ⟨passed, coasted⟩ := (reach_eq_ok_iff (some m)).mp goes
      rw [spans, now]
      exact ⟨_, flySpans_cons_eq_ok_iff.mpr ⟨passed, final, _, [], coasted, applied final,
        flySpans_at_end sound_rest (fun m' hm' => now.ge.trans (first m' hm')) _, rfl⟩⟩

/-- The final state of a propagation is that of the flight by the maneuvers with some time left. -/
theorem final_propagate_eq_ok_iff_flight (hi : integrator.Samples p.config.integrator p.mu)
    (hd : 0 < duration) {ms : List (Maneuver ℝ)} (sound : ∀ m ∈ ms, m.Sound) (s final : State ℝ) :
    p.propagate integrator s start duration ms outputStep >>= Trajectory.final = .ok final ↔
      p.flight integrator outputStep start duration 0 s
        ((Maneuver.sort ms).filter (·.isBeforeEnd start duration)) = .ok final := by
  have sorted := Maneuver.pairwise_sort start ms
  have sound : ∀ m ∈ Maneuver.sort ms, m.Sound := fun m hm =>
    sound m ((Maneuver.sort_perm ms).mem_iff.mp hm)
  have row (rows : List (ℝ × State ℝ)) :
      Trajectory.final (rows.map (TrajectoryPoint.dated start)) = .ok final ↔
        ∃ t, rows.getLast? = some (t, final) :=
    Trajectory.final_map_eq_ok_iff fun _ => rfl
  simp only [bind_eq_ok_iff, propagate_eq_ok_iff hd]
  constructor
  · rintro ⟨_, ⟨rows, flown, rfl⟩, last⟩
    obtain ⟨t, last⟩ := (row rows).mp last
    obtain ⟨t', final', last', goes⟩ := flight_of_flySpans hi sound sorted hd flown
    cases last.symm.trans last'
    exact goes
  · intro goes
    obtain ⟨rows, flown⟩ := exists_flySpans sound sorted goes
    obtain ⟨t', final', last', goes'⟩ := flight_of_flySpans hi sound sorted hd flown
    cases goes.symm.trans goes'
    exact ⟨_, ⟨rows, flown, rfl⟩, (row rows).mpr ⟨t', last'⟩⟩

/-! ### Masses and maneuvers at the end -/

theorem mass_of_flight (hi : integrator.Samples p.config.integrator p.mu) {ms : List (Maneuver ℝ)}
    {current : ℝ} {s final : State ℝ}
    (h : p.flight integrator outputStep start duration current s ms = .ok final) :
    final.mass = s.mass * (ms.map Maneuver.ratio).prod := by
  induction ms generalizing current s with
  | nil => simpa using mass_of_reach hi h
  | cons m ms ih =>
    obtain ⟨reached, hr, h⟩ := bind_eq_ok_iff.mp h
    calc
      final.mass = reached.mass * m.ratio * (ms.map Maneuver.ratio).prod := ih h
      _ = s.mass * ((m :: ms).map Maneuver.ratio).prod := by
        rw [mass_of_reach hi hr, List.map_cons, List.prod_cons, mul_assoc]

/-- From the end on, a flight only adds up effects. -/
theorem flight_at_end {late : List (Maneuver ℝ)} (now : ∀ m ∈ late, m.time start = duration)
    (s : State ℝ) :
    p.flight integrator outputStep start duration duration s late =
      .ok (Maneuver.effects late s) := by
  induction late generalizing s with
  | nil => rw [flight, reach_self, Maneuver.effects_nil]
  | cons m late ih =>
    rw [flight, now m List.mem_cons_self, reach_self, Maneuver.effects_cons]
    exact ih (fun m hm => now m (List.mem_cons_of_mem _ hm)) _

/-- Maneuvers at the end change what is reached without them. -/
theorem flight_append {late : List (Maneuver ℝ)} (now : ∀ m ∈ late, m.time start = duration)
    (ms : List (Maneuver ℝ)) (current : ℝ) (s : State ℝ) :
    p.flight integrator outputStep start duration current s (ms ++ late) =
      (p.flight integrator outputStep start duration current s ms).map (Maneuver.effects late) := by
  induction ms generalizing current s with
  | nil =>
    cases late with
    | nil =>
      rw [List.append_nil, funext Maneuver.effects_nil]
      cases p.flight integrator outputStep start duration current s [] <;> rfl
    | cons m late =>
      rw [List.nil_append, flight, flight, now m List.mem_cons_self]
      cases p.reach integrator outputStep s current duration with
      | error => rfl
      | ok reached =>
        change p.flight integrator outputStep start duration duration (m.effect reached) late =
          .ok (Maneuver.effects (m :: late) reached)
        rw [flight_at_end fun m hm => now m (List.mem_cons_of_mem _ hm), Maneuver.effects_cons]
  | cons m ms ih =>
    rw [List.cons_append, flight, flight]
    cases p.reach integrator outputStep s current (m.time start) with
    | error => rfl
    | ok reached => exact ih _ _

/-- With all maneuvers of a propagation a flight reaches what those at the end make of the state
after the others. -/
theorem flight_isWithin (hd : 0 < duration) (ms : List (Maneuver ℝ)) (s : State ℝ) :
    p.flight integrator outputStep start duration 0 s
        ((Maneuver.sort ms).filter (·.isWithin start duration)) =
      (p.flight integrator outputStep start duration 0 s
        ((Maneuver.sort ms).filter (·.isBeforeEnd start duration))).map
          (Maneuver.effects (ms.filter (·.isAtEnd start duration))) := by
  have now : ∀ m ∈ (Maneuver.sort ms).filter (·.isAtEnd start duration), m.time start = duration :=
    fun m hm => of_decide_eq_true (List.mem_filter.mp hm).2
  have reordered := (Maneuver.sort_perm ms).filter (·.isAtEnd start duration)
  rw [Maneuver.filter_isWithin _ _ (Maneuver.pairwise_sort start ms) hd, flight_append now,
    Maneuver.effects_perm reordered]

/-- The final state of a propagation is that of the flight by the maneuvers with some time left
after them, and exists exactly if that does. It is the state after all maneuvers of the propagation
unless some lie at its very end, and have an effect. -/
theorem final_propagate (hi : integrator.Samples p.config.integrator p.mu) (hd : 0 < duration)
    {ms : List (Maneuver ℝ)} (sound : ∀ m ∈ ms, m.Sound) (s final : State ℝ) :
    let flight := p.flight integrator outputStep start duration 0 s
    let atEnd := ms.filter (·.isAtEnd start duration)
    (p.propagate integrator s start duration ms outputStep >>= Trajectory.final = .ok final ↔
      flight ((Maneuver.sort ms).filter (·.isBeforeEnd start duration)) = .ok final) ∧
    (p.propagate integrator s start duration ms outputStep >>= Trajectory.final = .ok final →
      final.mass =
          s.mass * ((ms.filter (·.isBeforeEnd start duration)).map Maneuver.ratio).prod ∧
        (flight ((Maneuver.sort ms).filter (·.isWithin start duration)) = .ok final ↔
          Maneuver.total atEnd = ⟨0, 0, 0⟩ ∧
            (final.mass = 0 ∨ (atEnd.map Maneuver.ratio).prod = 1))) := by
  intro flight atEnd
  have given : p.propagate integrator s start duration ms outputStep >>= Trajectory.final =
      .ok final ↔ flight ((Maneuver.sort ms).filter (·.isBeforeEnd start duration)) = .ok final :=
    final_propagate_eq_ok_iff_flight hi hd sound s final
  refine ⟨given, fun propagated => ?_⟩
  have goes := given.mp propagated
  constructor
  · have early := (Maneuver.sort_perm ms).filter (·.isBeforeEnd start duration)
    rw [mass_of_flight hi goes, (early.map _).prod_eq]
  · have whole : flight ((Maneuver.sort ms).filter (·.isWithin start duration)) =
        .ok (Maneuver.effects atEnd final) := by
      calc
        _ = (flight ((Maneuver.sort ms).filter (·.isBeforeEnd start duration))).map
              (Maneuver.effects atEnd) := flight_isWithin hd ms s
        _ = .ok (Maneuver.effects atEnd final) := by rw [goes, Except.map]
    rw [whole, Except.ok.injEq, Maneuver.effects_eq_self_iff]

end Propagator

/-! ### A maneuver at the very end -/

namespace CircularOrbit

/-- Gives rows by the analytic solution of the coast. -/
noncomputable def samplingIntegrator : Integrator ℝ where
  final _ _ start final s := .ok ⟨flow s.toMotion (final - start), s.mass⟩
  sample _ _ start _ s times := .ok (times.map fun t => (t, ⟨flow s.toMotion (t - start), s.mass⟩))

theorem samples_samplingIntegrator (config : IntegratorConfig ℝ) (mu : ℝ) :
    samplingIntegrator.Samples config mu := by
  intro a b s times rows _ sampled
  cases sampled
  constructor
  · rw [List.map_map]
    exact List.map_id _
  · intro row hrow
    obtain ⟨t, -, rfl⟩ := List.mem_map.mp hrow
    rfl

/-- A burn of half a kilometre per second. -/
noncomputable def burn (epoch : ℝ) : Maneuver ℝ := ⟨⟨epoch⟩, [0, 0.5, 0], some 300.0⟩

theorem sound_burn (epoch : ℝ) : (burn epoch).Sound where
  components := ⟨_, rfl⟩
  isp := by norm_num [burn]

theorem ratio_burn_ne_one (epoch : ℝ) : (burn epoch).ratio ≠ 1 := by
  have size : (burn epoch).size ≠ 0 := by
    norm_num [burn, Maneuver.size, magnitude]
  have divisor : (300.0 : ℝ) * standardGravity * kmPerMetre ≠ 0 :=
    mul_ne_zero (mul_ne_zero (by norm_num) standardGravity_pos.ne') kmPerMetre_pos.ne'
  change Real.exp (-(burn epoch).size / (300.0 * standardGravity * kmPerMetre)) ≠ 1
  rw [Ne, Real.exp_eq_one_iff]
  exact div_ne_zero (neg_ne_zero.mpr size) divisor

theorem time_burn (epoch : ℝ) : (burn epoch).time ⟨0⟩ = epoch * secondsPerDay := by
  simp [burn, Maneuver.time, Epoch.secondsSince]

/-- Where every coast gives a result, so does every flight. -/
theorem exists_flight (p : Propagator ℝ) (start : Epoch ℝ) (duration current : ℝ) (s : State ℝ)
    (ms : List (Maneuver ℝ)) :
    ∃ final, p.flight samplingIntegrator none start duration current s ms = .ok final := by
  have reaches (s : State ℝ) (a b : ℝ) :
      ∃ reached, p.reach samplingIntegrator none s a b = .ok reached := by
    rw [Propagator.reach, Propagator.coastSpan]
    split
    · exact ⟨_, rfl⟩
    · exact ⟨_, rfl⟩
  induction ms generalizing current s with
  | nil => exact reaches s current duration
  | cons m ms ih =>
    obtain ⟨reached, hr⟩ := reaches s current (m.time start)
    rw [Propagator.flight, hr]
    exact ih _ _

noncomputable def propagator : Propagator ℝ := ⟨1, .default⟩

/-- A day with a burn at its start and one at its end, of which only the first uses up mass. -/
theorem final_propagate_burns :
    samplingIntegrator.Samples propagator.config.integrator propagator.mu ∧
      0 < (secondsPerDay : ℝ) ∧ (∀ m ∈ [burn 1, burn 0], m.Sound) ∧
        ∃ final, propagator.propagate samplingIntegrator state ⟨0⟩ secondsPerDay [burn 1, burn 0]
            none >>= Trajectory.final = .ok final ∧
          final.mass = state.mass * (burn 0).ratio := by
  have sound : ∀ m ∈ [burn 1, burn 0], m.Sound := by
    intro m hm
    rcases List.mem_pair.mp hm with rfl | rfl
    · exact sound_burn 1
    · exact sound_burn 0
  have samples := samples_samplingIntegrator propagator.config.integrator propagator.mu
  obtain ⟨final, goes⟩ := exists_flight propagator ⟨0⟩ secondsPerDay 0 state
    ((Maneuver.sort [burn 1, burn 0]).filter (·.isBeforeEnd ⟨0⟩ secondsPerDay))
  obtain ⟨given, claimed⟩ := Propagator.final_propagate samples secondsPerDay_pos sound state final
  have propagated := given.mpr goes
  have first : [burn 1, burn 0].filter (·.isBeforeEnd ⟨0⟩ secondsPerDay) = [burn 0] := by
    simp [Maneuver.isBeforeEnd, time_burn, secondsPerDay_pos]
  refine ⟨samples, secondsPerDay_pos, sound, final, propagated, ?_⟩
  rw [(claimed propagated).1, first]
  simp

/-- A day with a burn at its end, which is within the day, but has used up no mass. -/
theorem final_propagate_burn_at_end :
    ∃ final, propagator.propagate samplingIntegrator state ⟨0⟩ secondsPerDay [burn 1] none >>=
        Trajectory.final = .ok final ∧
      (burn 1).Sound ∧ 0 ≤ (burn 1).time ⟨0⟩ ∧ (burn 1).time ⟨0⟩ ≤ secondsPerDay ∧
        final.mass ≠ state.mass * (burn 1).ratio := by
  have sound : ∀ m ∈ [burn 1], m.Sound := List.forall_mem_singleton.mpr (sound_burn 1)
  have samples := samples_samplingIntegrator propagator.config.integrator propagator.mu
  obtain ⟨final, goes⟩ := exists_flight propagator ⟨0⟩ secondsPerDay 0 state
    ((Maneuver.sort [burn 1]).filter (·.isBeforeEnd ⟨0⟩ secondsPerDay))
  have propagated := (Propagator.final_propagate_eq_ok_iff_flight samples secondsPerDay_pos sound
    state final).mpr goes
  have none : (Maneuver.sort [burn 1]).filter (·.isBeforeEnd ⟨0⟩ secondsPerDay) = [] := by
    rw [Maneuver.sort_eq, List.mergeSort_singleton]
    simp [Maneuver.isBeforeEnd, time_burn]
  rw [none] at goes
  refine ⟨final, propagated, sound_burn 1, ?_, ?_, ?_⟩
  · rw [time_burn, one_mul]
    exact secondsPerDay_pos.le
  · rw [time_burn, one_mul]
  · rw [Propagator.mass_of_flight samples goes, List.map_nil, List.prod_nil, mul_one]
    have mass : state.mass ≠ 0 := by norm_num [state]
    exact fun same => ratio_burn_ne_one 1 (mul_eq_left₀ mass |>.mp same.symm)

end CircularOrbit

end LowThrust
