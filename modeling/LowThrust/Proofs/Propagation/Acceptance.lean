import LowThrust.Proofs.Leg.Destination
import LowThrust.Proofs.Propagation.Ticks
import LowThrust.Propagation.Trajectory

/-!
Output times that an integrator accepts. They have to increase and to stay within the span, of which
a grid only sees to it that they do not decrease: its last time may be rounded beyond the end, and
times that are too close together may coincide. Where the start is zero, and where nothing is
rounded, neither happens.
-/

namespace LowThrust

namespace Span

open Binary64

/-- What is asked of the output times within a span: that they increase and do not leave it. -/
structure Accepts (span : Span Float) (times : List Float) : Prop where
  increasing : times.Pairwise (· < ·)
  within : ∀ t ∈ times, span.start ≤ t ∧ t ≤ span.final

/-- Times that are in order are accepted unless the last one is beyond the span or two of them
coincide. -/
theorem accepts_iff {span : Span Float} {times : List Float} (ordered : times.Pairwise (· ≤ ·))
    (first : ∀ t ∈ times, span.start ≤ t) :
    span.Accepts times ↔ (∀ t ∈ times.getLast?, t ≤ span.final) ∧
      times.IsChain fun s t => (s == t) = false := by
  constructor
  · rintro ⟨increasing, within⟩
    refine ⟨fun t ht => (within t (List.mem_of_getLast? ht)).2, ?_⟩
    exact increasing.isChain.imp fun _ _ lt => (lt_iff_le_and_not_beq.mp lt).2
  · rintro ⟨last, differ⟩
    have increasing : times.Pairwise (· < ·) := by
      rw [← List.isChain_iff_pairwise, List.isChain_iff_getElem]
      intro i hi
      exact lt_iff_le_and_not_beq.mpr ⟨List.isChain_iff_getElem.mp ordered.isChain i hi,
        List.isChain_iff_getElem.mp differ i hi⟩
    refine ⟨increasing, fun t ht => ⟨first t ht, ?_⟩⟩
    obtain rfl | ⟨init, u, rfl⟩ := List.eq_nil_or_concat' times
    · cases ht
    · have end_le : u ≤ span.final := last u List.getLast?_concat
      rcases List.mem_append.mp ht with before | at_end
      · have le := (List.pairwise_append.mp ordered).2.2 t before u (List.mem_singleton_self u)
        exact float_le_trans le end_le
      · rwa [List.mem_singleton.mp at_end]

section Closed

variable {span : Span Float} {t : Nat → Float} {k : Nat}

/-- The last time is closed by the end of the span if it is before it. -/
theorem closeAt_map (final : Float) (t : Nat → Float) (k : Nat) :
    closeAt final ((List.range (k + 1)).map t) =
      if t k < final then (List.range (k + 1)).map t ++ [final] else (List.range (k + 1)).map t := by
  rw [closeAt, List.range_succ, List.map_append, List.map_singleton, List.getLast?_concat]

theorem head?_closeAt (final : Float) (t : Nat → Float) (k : Nat) :
    (closeAt final ((List.range (k + 1)).map t)).head? = some (t 0) := by
  rw [closeAt_map, List.range_succ_eq_map, List.map_cons]
  split <;> rfl

theorem final_le_of_mem_getLast? (final : span.final.isNaN = false) (last : (t k).isNaN = false) :
    ∀ u ∈ (closeAt span.final ((List.range (k + 1)).map t)).getLast?, span.final ≤ u := by
  rw [closeAt_map]
  split
  · rw [List.getLast?_concat]
    rintro _ ⟨⟩
    exact le_iff_rank.mpr ⟨final, final, le_rfl⟩
  · next not_before =>
    rw [List.range_succ, List.map_append, List.map_singleton, List.getLast?_concat]
    rintro _ ⟨⟩
    exact (not_lt_iff final last).mp not_before

theorem getLast?_closeAt_iff (finite : span.final.isNaN = false) :
    (∀ u ∈ (closeAt span.final ((List.range (k + 1)).map t)).getLast?, u ≤ span.final) ↔
      t k ≤ span.final := by
  rw [closeAt_map]
  split
  · next lt =>
    rw [List.getLast?_concat]
    refine iff_of_true ?_ (float_le_of_lt lt)
    rintro _ ⟨⟩
    exact le_iff_rank.mpr ⟨finite, finite, le_rfl⟩
  · rw [List.range_succ, List.map_append, List.map_singleton, List.getLast?_concat]
    simp

theorem isChain_closeAt_iff :
    ((closeAt span.final ((List.range (k + 1)).map t)).IsChain fun s t => (s == t) = false) ↔
      ∀ i < k, (t i == t (i + 1)) = false := by
  have ticks : (((List.range (k + 1)).map t).IsChain fun s t => (s == t) = false) ↔
      ∀ i < k, (t i == t (i + 1)) = false := by
    rw [List.isChain_map, List.isChain_range_succ]
  rw [closeAt_map]
  split
  · next lt =>
    rw [List.isChain_append, ticks, and_iff_left]
    refine ⟨List.isChain_singleton _, ?_⟩
    rw [List.range_succ, List.map_append, List.map_singleton, List.getLast?_concat]
    rintro _ ⟨⟩ _ ⟨⟩
    exact (lt_iff_le_and_not_beq.mp lt).2
  · exact ticks

variable (mono : ∀ i j, i ≤ j → j ≤ k → t i ≤ t j)

include mono

theorem pairwise_closeAt : (closeAt span.final ((List.range (k + 1)).map t)).Pairwise (· ≤ ·) := by
  have ticks : ((List.range (k + 1)).map t).Pairwise (· ≤ ·) := by
    rw [List.pairwise_map]
    refine List.pairwise_lt_range.imp_of_mem fun hi hj lt => ?_
    exact mono _ _ lt.le (Nat.le_of_lt_succ (List.mem_range.mp hj))
  rw [closeAt_map]
  split
  · next lt =>
    refine List.pairwise_append.mpr ⟨ticks, List.pairwise_singleton _ _, ?_⟩
    simp only [List.mem_map, List.mem_range, List.mem_singleton]
    rintro _ ⟨i, hi, rfl⟩ _ rfl
    exact float_le_trans (mono i k (Nat.le_of_lt_succ hi) le_rfl) (float_le_of_lt lt)
  · exact ticks

variable (start : t 0 = span.start) (le : span.start ≤ span.final)

include start le

theorem start_le_closeAt : ∀ u ∈ closeAt span.final ((List.range (k + 1)).map t),
    span.start ≤ u := by
  have tick {u : Float} (hu : u ∈ (List.range (k + 1)).map t) : span.start ≤ u := by
    obtain ⟨i, hi, rfl⟩ := List.mem_map.mp hu
    rw [← start]
    exact mono 0 i i.zero_le (Nat.le_of_lt_succ (List.mem_range.mp hi))
  intro u hu
  rw [closeAt_map] at hu
  split at hu
  · rcases List.mem_append.mp hu with before | at_end
    · exact tick before
    · rwa [List.mem_singleton.mp at_end]
  · exact tick hu

theorem accepts_closeAt_iff :
    span.Accepts (closeAt span.final ((List.range (k + 1)).map t)) ↔
      t k ≤ span.final ∧ ∀ i < k, (t i == t (i + 1)) = false := by
  have finite : span.final.isNaN = false := (le_iff_rank.mp le).2.1
  rw [accepts_iff (pairwise_closeAt mono) (start_le_closeAt mono start le),
    getLast?_closeAt_iff finite, isChain_closeAt_iff]

end Closed

/-! ### Grids that are accepted -/

namespace Divisible

variable {span : Span Float} {step : Float} (h : span.Divisible step) {k : Nat}
  (counted : 1 ≤ k → k < value ((span.final - span.start) / step))

include counted

omit h in
theorem some_of_counted (pos : 1 ≤ k) : 1 < value ((span.final - span.start) / step) :=
  lt_of_le_of_lt (by exact_mod_cast pos) (counted pos)

include h

theorem tick_mono (lt : k < overflow) (i j : Nat) (le : i ≤ j) (le' : j ≤ k) :
    tick span.start (span.apart step) i ≤ tick span.start (span.apart step) j := by
  obtain none | pos := Nat.eq_zero_or_pos k
  · obtain rfl : j = 0 := Nat.le_zero.mp (le'.trans none.le)
    obtain rfl : i = 0 := Nat.le_zero.mp le
    exact (le_iff_value h.start.finite h.start.finite).mpr le_rfl
  · exact tick_le_tick h.start (h.isNonneg_apart (some_of_counted counted pos)) le
      (le'.trans_lt lt)

theorem start_le_grid (lt : k < overflow) :
    ∀ t ∈ closeAt span.final (progression span.start (span.apart step) (k + 1)), span.start ≤ t := by
  rw [progression_eq_map]
  exact start_le_closeAt (h.tick_mono counted lt) rfl
    ((le_iff_value h.start.finite h.final.finite).mpr h.lt.le)

theorem accepts_iff_tick (lt : k < overflow) :
    span.Accepts (closeAt span.final (progression span.start (span.apart step) (k + 1))) ↔
      tick span.start (span.apart step) k ≤ span.final ∧
        ∀ i < k, (tick span.start (span.apart step) i ==
          tick span.start (span.apart step) (i + 1)) = false := by
  rw [progression_eq_map]
  exact accepts_closeAt_iff (h.tick_mono counted lt) rfl
    ((le_iff_value h.start.finite h.final.finite).mpr h.lt.le)

theorem accepts_of_values (lt : k < overflow)
    (nonneg : 1 ≤ k → ∀ i ≤ k, IsNonneg (tick span.start (span.apart step) i))
    (within : 1 ≤ k → value (tick span.start (span.apart step) k) ≤ value span.final)
    (differ : 1 ≤ k → ∀ i < k, value (tick span.start (span.apart step) i) ≠
      value (tick span.start (span.apart step) (i + 1))) :
    span.Accepts (closeAt span.final (progression span.start (span.apart step) (k + 1))) := by
  refine (h.accepts_iff_tick counted lt).mpr ?_
  obtain rfl | pos := Nat.eq_zero_or_pos k
  · exact ⟨(le_iff_value h.start.finite h.final.finite).mpr h.lt.le, nofun⟩
  · refine ⟨(le_iff_value (nonneg pos k le_rfl).finite h.final.finite).mpr (within pos), ?_⟩
    intro i hi
    rw [← Bool.not_eq_true, beq_iff_value (nonneg pos i hi.le).finite (nonneg pos (i + 1) hi).finite]
    exact differ pos i hi

/-- From zero on there are as many times as a significand tells apart. -/
theorem accepts_of_start_eq_zero (zero : value span.start = 0) (bits : k < 2 ^ 52) :
    span.Accepts (closeAt span.final (progression span.start (span.apart step) (k + 1))) := by
  have room (pos : 1 ≤ k) : k * value step ≤ value span.final :=
    (h.room_of_zero zero (bits.trans (by norm_num)) (counted pos)).le
  have multiple (pos : 1 ≤ k) (i : Nat) (le : i ≤ k) :=
    h.rounds_tick_of_zero (i := i) zero (some_of_counted counted pos)
      ((le.trans_lt bits).trans (by norm_num))
      ((mul_le_mul_of_nonneg_right (by exact_mod_cast le) h.pos.le).trans (room pos))
  refine h.accepts_of_values counted (lt_overflow_of_lt (bits.trans (by norm_num))) ?_ ?_ ?_
  · intro pos i le
    obtain ⟨-, -, -, nonneg, -⟩ := multiple pos i le
    exact nonneg
  · intro pos
    obtain ⟨x, rounds, -, -, same⟩ := multiple pos k le_rfl
    rw [same]
    exact (rounds.value_le h.final (mul_nonneg k.cast_nonneg h.pos.le) (room pos)).2
  · intro pos i hi
    obtain ⟨x, rounds, nonneg, -, same⟩ := multiple pos i hi.le
    obtain ⟨y, rounds', nonneg', -, same'⟩ := multiple pos (i + 1) hi
    rw [same, same']
    exact value_ne_of_rounds h.step h.pos (by omega) rounds rounds' nonneg nonneg'

/-- Where all is a whole number of some unit, nothing is rounded. -/
theorem accepts_of_units (lt : k < overflow) {e : ℤ} {a b n : ℕ}
    (hu : span.InUnits step e a b n) :
    span.Accepts (closeAt span.final (progression span.start (span.apart step) (k + 1))) := by
  have unit : (0 : ℚ) < 2 ^ e := zpow_pos two_pos _
  have whole (pos : 1 ≤ k) (i : Nat) (le : i ≤ k) :
      IsNonneg (tick span.start (span.apart step) i) ∧
        value (tick span.start (span.apart step) i) = (a + i * n : ℕ) * 2 ^ e ∧ a + i * n ≤ b := by
    obtain ⟨bits, room⟩ := h.room_of_units hu (counted pos)
    have room : a + i * n ≤ b := (Nat.add_le_add_left (Nat.mul_le_mul_right n le) a).trans room.le
    obtain ⟨nonneg, eq⟩ :=
      h.tick_of_units hu (some_of_counted counted pos) (le.trans_lt bits) room
    exact ⟨nonneg, eq, room⟩
  refine h.accepts_of_values counted lt (fun pos i le => (whole pos i le).1) ?_ ?_
  · intro pos
    obtain ⟨-, eq, room⟩ := whole pos k le_rfl
    rw [eq, hu.final]
    exact mul_le_mul_of_nonneg_right (by exact_mod_cast room) unit.le
  · intro pos i hi
    rw [(whole pos i hi.le).2.1, (whole pos (i + 1) hi).2.1]
    have more : a + i * n < a + (i + 1) * n :=
      Nat.add_lt_add_left (Nat.mul_lt_mul_of_pos_right i.lt_succ_self (h.step_pos_of_units hu)) a
    exact (mul_lt_mul_of_pos_right (by exact_mod_cast more) unit).ne

/-- A step that is not short of four units in the last place of the end is never lost. -/
theorem accepts_iff_of_wide (lt : k < overflow) (wide : value span.final ≤ 2 ^ 50 * value step) :
    span.Accepts (closeAt span.final (progression span.start (span.apart step) (k + 1))) ↔
      tick span.start (span.apart step) k ≤ span.final := by
  rw [h.accepts_iff_tick counted lt]
  refine and_iff_left_of_imp fun within i hi => ?_
  have pos : 1 ≤ k := Nat.zero_lt_of_lt hi
  obtain ⟨w, decoded, -, eq⟩ := h.final.exists_decode
  have canonical := canonical_of_decode decoded
  rcases canonical.full with full | least
  · have few : (k : ℚ) < (2 ^ 50 : ℕ) := by
      exact_mod_cast (counted pos).trans_le (h.count_le_of_wide wide)
    have few : k < 2 ^ 50 := by exact_mod_cast few
    have unit : (0 : ℚ) < 2 ^ w.exponent := zpow_pos two_pos _
    have full : ((2 ^ 52 : ℕ) : ℚ) ≤ w.significand := by exact_mod_cast full
    have wide : 3 * 2 ^ w.exponent < value step := by
      have large := mul_le_mul_of_nonneg_right full unit.le
      rw [eq, Finite.magnitude] at wide
      push_cast at large
      linarith
    obtain ⟨nonneg, nonneg', less⟩ :=
      h.tick_lt_tick_succ decoded (some_of_counted counted pos) wide (i := i) (by omega)
        (float_le_trans (h.tick_mono counted lt (i + 1) k hi le_rfl) within)
    rw [← Bool.not_eq_true, beq_iff_value nonneg.finite nonneg'.finite]
    exact less.ne
  · obtain ⟨a, start⟩ := h.start.exists_units
    obtain ⟨n, step⟩ := h.step.exists_units
    have final : value span.final = w.significand * 2 ^ (-1074 : ℤ) := by
      rw [eq, Finite.magnitude, least]
    have accepted := h.accepts_of_units counted lt ⟨le_rfl, start, final, canonical.lt, step⟩
    exact ((h.accepts_iff_tick counted lt).mp accepted).2 i hi

end Divisible

/-! ### Grids of a span -/

/-- A grid leads from the start of a span to its end, or beyond; when it is accepted. -/
structure Judges (span : Span Float) (step : Float) (times : List Float) : Prop where
  starts : times.head? = some span.start
  reaches : ∀ t ∈ times.getLast?, span.final ≤ t
  /-- Otherwise the last one is beyond the span, or two that follow each other coincide. -/
  accepts_iff : span.Accepts times ↔
    (∀ t ∈ times.getLast?, t ≤ span.final) ∧ times.IsChain fun s t => (s == t) = false
  /-- Steps that are not short of a few units in the last place never make times coincide. -/
  wide : value span.final ≤ 2 ^ 50 * value step →
    (span.Accepts times ↔ ∀ t ∈ times.getLast?, t ≤ span.final)
  zero : (span.start == 0.0) = true → times.length ≤ 2 ^ 52 → span.Accepts times
  units : ∀ e a b n, span.InUnits step e a b n → span.Accepts times

theorem length_closeAt (final : Float) (times : List Float) :
    times.length ≤ (closeAt final times).length := by
  rw [closeAt]
  split
  · next none => simp [List.getLast?_eq_none_iff.mp none]
  · split <;> simp

theorem judges_grid {span : Span Float} {step : Float} (start : ¬ span.start < 0.0)
    (lt : span.start < span.final) (finite : step.isFinite = true) (pos : 0.0 < step)
    {times : List Float} (h : span.grid step = .ok times) : span.Judges step times := by
  obtain ⟨divisible, k, few, rfl, counted⟩ := ticks_of_grid start lt finite pos h
  have last :
      (∀ t ∈ (closeAt span.final (progression span.start (span.apart step) (k + 1))).getLast?,
        t ≤ span.final) ↔ tick span.start (span.apart step) k ≤ span.final := by
    rw [progression_eq_map]
    exact getLast?_closeAt_iff (isNaN_of_isFinite divisible.final.finite)
  have later : span.start ≤ tick span.start (span.apart step) k :=
    divisible.tick_mono counted few 0 k k.zero_le le_rfl
  refine ⟨?_, ?_, ?_, fun wide => ?_, fun zero short => ?_, fun e a b n => ?_⟩
  · rw [progression_eq_map]
    exact head?_closeAt _ _ _
  · rw [progression_eq_map]
    exact final_le_of_mem_getLast? (isNaN_of_isFinite divisible.final.finite)
      (le_iff_rank.mp later).2.1
  · rw [divisible.accepts_iff_tick counted few, last, progression_eq_map, isChain_closeAt_iff]
  · rw [divisible.accepts_iff_of_wide counted few wide, last]
  · have length := (length_closeAt span.final _).trans short
    rw [length_progression] at length
    rw [beq_iff_value divisible.start.finite (by decide), value_zero] at zero
    exact divisible.accepts_of_start_eq_zero counted zero length
  · exact divisible.accepts_of_units counted few

theorem start_le_of_grid {span : Span Float} {step : Float} (start : ¬ span.start < 0.0)
    (lt : span.start < span.final) (finite : step.isFinite = true) (pos : 0.0 < step)
    {times : List Float} (h : span.grid step = .ok times) : ∀ t ∈ times, span.start ≤ t := by
  obtain ⟨divisible, k, few, rfl, counted⟩ := ticks_of_grid start lt finite pos h
  exact divisible.start_le_grid counted few

end Span

/-! ### Integrators that screen output times -/

namespace Integrator

open Binary64

/-- An integrator with these methods refuses output times within a span that runs forward exactly
if they do not increase or leave the span. A method that it does not have is refused before. -/
def ScreensTimes (integrator : Integrator Float) (methods : List String) : Prop :=
  ∀ config rate (span : Span Float) s times, span.start < span.final →
    (∀ t ∈ times, t.isNaN = false) →
      (integrator.sample config rate span.start span.final s times =
          .error (.refused .outputTimes) ↔
        config.method ∈ methods ∧ ¬ span.Accepts times)

theorem ScreensTimes.refuses {integrator : Integrator Float} {methods : List String}
    (screens : integrator.ScreensTimes methods) {config : IntegratorConfig Float}
    {rate : State Float → State Float} {span : Span Float} {s : State Float} {times : List Float}
    (lt : span.start < span.final) (first : ∀ t ∈ times, span.start ≤ t) :
    integrator.sample config rate span.start span.final s times =
        .error (.refused .outputTimes) ↔
      config.method ∈ methods ∧ ¬ span.Accepts times :=
  screens config rate span s times lt fun t ht => (le_iff_rank.mp (first t ht)).2.1

end Integrator

namespace DormandPrince

open Binary64

theorem isIncreasing_iff {times : List Float} (numbers : ∀ t ∈ times, t.isNaN = false) :
    isIncreasing times = true ↔ times.Pairwise (· < ·) := by
  induction times with
  | nil => exact iff_of_true rfl .nil
  | cons s ts ih =>
    cases ts with
    | nil => exact iff_of_true rfl (List.pairwise_singleton _ _)
    | cons t ts =>
      have later : ∀ u ∈ t :: ts, u.isNaN = false := fun u hu => numbers u (.tail s hu)
      have order : (!decide (t ≤ s)) = true ↔ s < t := by
        rw [Bool.not_eq_true', decide_eq_false_iff_not, ← not_lt_iff (later t (.head ts))
          (numbers s (.head _)), not_not]
      rw [isIncreasing, Bool.and_eq_true, order, ih later, ← List.isChain_iff_pairwise,
        ← List.isChain_iff_pairwise, List.isChain_cons_cons]

theorem accepts_iff_screened {span : Span Float} (lt : span.start < span.final)
    {times : List Float} (numbers : ∀ t ∈ times, t.isNaN = false) :
    span.Accepts times ↔
      (times.any (fun t => t < span.start || t > span.final) || !isIncreasing times) = false := by
  have ends := lt_iff_rank.mp lt
  have outside (t : Float) (ht : t ∈ times) :
      ¬ (decide (t < span.start) || decide (t > span.final)) = true ↔
        span.start ≤ t ∧ t ≤ span.final := by
    rw [Bool.or_eq_true, decide_eq_true_iff, decide_eq_true_iff, not_or, gt_iff_lt,
      not_lt_iff ends.1 (numbers t ht), not_lt_iff (numbers t ht) ends.2.1]
  rw [Bool.or_eq_false_iff, Bool.not_eq_false', isIncreasing_iff numbers, List.any_eq_false]
  constructor
  · rintro ⟨increasing, within⟩
    exact ⟨fun t ht => (outside t ht).mpr (within t ht), increasing⟩
  · rintro ⟨within, increasing⟩
    exact ⟨increasing, fun t ht => (outside t ht).mp (within t ht)⟩

/-- Of the reasons to refuse, only the method comes before the output times, and the steps that are
taken end in other faults. -/
theorem solve_eq_refused_iff {p : Problem} {s : State Float} {times : List Float} :
    solve p s times = .error (.refused .outputTimes) ↔
      p.config.method = dormandPrince ∧
        (times.any (fun t => t < p.start || t > p.final) || !isIncreasing times) = true := by
  have later : FailsOnly (· ≠ .refused .outputTimes) (run p stepLimit
      { t := p.start, y := s, rate := p.rate s, length := p.firstStep s (p.rate s),
        rejected := false, times, rows := [] }) := by
    refine (run_failsOnly p stepLimit _).mono ?_
    rintro _ (⟨_, rfl⟩ | rfl) ⟨⟩
  by_cases method : p.config.method = dormandPrince
  · rw [solve, if_neg (not_not.mpr method), and_iff_right method]
    split
    · next screened => exact iff_of_true rfl screened
    · next passed =>
      refine iff_of_false (fun failed => ?_) passed
      dsimp only at failed
      repeat' split at failed
      all_goals first | exact later _ failed rfl | cases failed
  · rw [solve, if_pos method]
    exact iff_of_false (by rintro ⟨⟩) fun known => method known.1

theorem screensTimes : integrator.ScreensTimes [dormandPrince] := by
  intro config rate span s times lt numbers
  have solved : integrator.sample config rate span.start span.final s times =
        .error (.refused .outputTimes) ↔
      solve ⟨config, rate, span.start, span.final⟩ s times = .error (.refused .outputTimes) := by
    simp only [integrator]
    cases solve ⟨config, rate, span.start, span.final⟩ s times <;> simp [Except.map]
  rw [solved, solve_eq_refused_iff, accepts_iff_screened lt numbers, Bool.not_eq_false,
    List.mem_singleton]

end DormandPrince

/-! ### Propagations -/

/-- The fault is what an integrator refuses. -/
def Fault.IsRefusal {α : Type} (fault : Fault α) : Prop := ∃ cause, fault = .refused cause

theorem Span.grid_failsOnly (span : Span Float) (step : Float) :
    FailsOnly (¬ Fault.IsRefusal ·) (span.grid step) := by
  refine .bind ?_ fun n => .ok _
  rw [outputCount]
  split
  · exact .error (by rintro ⟨_, ⟨⟩⟩)
  · dsimp only
    split
    · exact .error (by rintro ⟨_, ⟨⟩⟩)
    · generalize (if step > 0.0 then _ else _ : Int) = n
      split
      · exact .ok _
      · exact .error (by rintro ⟨_, ⟨⟩⟩)

theorem Maneuver.apply_failsOnly (m : Maneuver Float) (s : State Float) :
    FailsOnly (¬ Fault.IsRefusal ·) (m.apply s) := by
  rw [apply]
  split
  · exact .error (by rintro ⟨_, ⟨⟩⟩)
  · refine .bind ?_ fun _ => .ok _
    rw [massRatio]
    split
    · exact .ok _
    · refine .map ?_
      rw [checkedDiv]
      split
      · exact .error (by rintro ⟨_, ⟨⟩⟩)
      · exact .ok _

namespace Propagator

/-- The integrator refuses to run through the span from some state on. -/
def StopsAt (integrator : Integrator Float) (p : Propagator Float) (step : Float)
    (cause : IntegratorRefusal) (span : Span Float) : Prop :=
  span.start < span.final ∧ ∃ times s, span.grid step = .ok times ∧
    integrator.sample p.config.integrator (State.coastRate p.mu) span.start span.final s times =
      .error (.refused cause)

section Stops

variable {integrator : Integrator Float} {p : Propagator Float} {step : Float}
  {cause : IntegratorRefusal}

theorem StopsAt.of_coastSpan {s : State Float} {span : Span Float}
    (h : p.coastSpan integrator (some step) s span = .error (.refused cause)) :
    p.StopsAt integrator step cause span := by
  rw [coastSpan] at h
  split at h
  · next lt =>
    refine ⟨lt, ?_⟩
    rcases bind_eq_error_iff.mp h with grid | ⟨times, grid, h⟩
    · exact absurd ⟨cause, rfl⟩ (span.grid_failsOnly step _ grid)
    · rcases bind_eq_error_iff.mp h with sample | ⟨_, -, ⟨⟩⟩
      exact ⟨times, s, grid, sample⟩
  · cases h

/-- A flight is refused at one of its spans. -/
theorem StopsAt.of_flySpans {s : State Float} {spans : List (Span Float)}
    (h : p.flySpans integrator (some step) s spans = .error (.refused cause)) :
    ∃ span ∈ spans, p.StopsAt integrator step cause span := by
  induction spans generalizing s with
  | nil => cases h
  | cons span spans ih =>
    rw [flySpans] at h
    rcases bind_eq_error_iff.mp h with coast | ⟨⟨rows, reached⟩, -, h⟩
    · exact ⟨span, .head spans, .of_coastSpan coast⟩
    · have later {next : State Float} (h : (do
          return rows ++ (← p.flySpans integrator (some step) next spans)) =
            Except.error (.refused cause)) :
          ∃ span' ∈ span :: spans, p.StopsAt integrator step cause span' := by
        rcases bind_eq_error_iff.mp h with flown | ⟨_, -, ⟨⟩⟩
        obtain ⟨span', mem, stops⟩ := ih flown
        exact ⟨span', .tail span mem, stops⟩
      dsimp only at h
      cases maneuver : span.maneuver with
      | none =>
        rw [maneuver] at h
        exact later h
      | some m =>
        rw [maneuver] at h
        rcases bind_eq_error_iff.mp h with apply | ⟨next, -, h⟩
        · exact absurd ⟨cause, rfl⟩ (m.apply_failsOnly reached _ apply)
        · exact later h

end Stops

open Binary64

variable (p : Propagator Float) (start : Epoch Float) (duration : Float) (ms : List (Maneuver Float))

/-- Grids are judged span by span, and an integrator that screens output times refuses exactly the
grids that are not accepted, whatever state it starts from. Only for such a span is a propagation
refused for its output times. -/
theorem grids_judged {integrator : Integrator Float} {methods : List String}
    (screens : integrator.ScreensTimes methods) {step : Float} (finite : step.isFinite = true)
    (pos : 0.0 < step) :
    (∀ span ∈ Span.between start duration 0.0 (Maneuver.sort ms), span.start < span.final →
      ((∃ times, span.grid step = .ok times) ↔
        ((span.final - span.start) / step).isFinite = true ∧
          ceil ((span.final - span.start) / step) < Span.outputLimit) ∧
      ∀ times, span.grid step = .ok times →
        span.Judges step times ∧ ∀ s,
          (integrator.sample p.config.integrator (State.coastRate p.mu) span.start span.final s
              times = .error (.refused .outputTimes) ↔
            p.config.integrator.method ∈ methods ∧ ¬ span.Accepts times)) ∧
      ∀ s, p.propagate integrator s start duration ms (some step) =
          .error (.refused .outputTimes) →
        ∃ span ∈ Span.between start duration 0.0 (Maneuver.sort ms), span.start < span.final ∧
          ∃ times, span.grid step = .ok times ∧ ¬ span.Accepts times := by
  have screened (span : Span Float)
      (mem : span ∈ Span.between start duration 0.0 (Maneuver.sort ms))
      (lt : span.start < span.final) (times : List Float) (grid : span.grid step = .ok times)
      (s : State Float) :
      integrator.sample p.config.integrator (State.coastRate p.mu) span.start span.final s times =
          .error (.refused .outputTimes) ↔
        p.config.integrator.method ∈ methods ∧ ¬ span.Accepts times :=
    screens.refuses lt (Span.start_le_of_grid
      (Span.not_lt_zero_of_mem_between mem (by decide)) lt finite pos grid)
  constructor
  · intro span mem lt
    refine ⟨Span.exists_grid_iff pos, fun times grid => ⟨?_, screened span mem lt times grid⟩⟩
    exact Span.judges_grid (Span.not_lt_zero_of_mem_between mem (by decide)) lt finite pos grid
  · intro s refused
    rw [propagate] at refused
    split at refused
    · rcases bind_eq_error_iff.mp refused with flown | ⟨_, -, ⟨⟩⟩
      obtain ⟨span, mem, lt, times, y, grid, sample⟩ := StopsAt.of_flySpans flown
      exact ⟨span, mem, lt, times, grid, ((screened span mem lt times grid y).mp sample).2⟩
    · cases refused

/-- An impulse of half a day after the start of day zero. -/
def noonBurn : Maneuver Float := ⟨⟨0.5⟩, [0.0, 0.1, 0.0], some 3000.0⟩

theorem between_noonBurn {duration : Float} (late : ¬ 43200.0 > duration) :
    Span.between ⟨0.0⟩ duration 0.0 (Maneuver.sort [noonBurn]) =
      [⟨0.0, 43200.0, some noonBurn⟩, ⟨43200.0, duration, none⟩] := by
  have noon : noonBurn.time ⟨0.0⟩ = 43200.0 := rfl
  have within : ¬ ((43200.0 : Float) < 0.0 ∨ 43200.0 > duration) := not_or.mpr ⟨by decide, late⟩
  rw [Maneuver.sort, if_pos (by decide), List.mergeSort_singleton, Span.between]
  simp only [noon, within, if_false, Span.between]

/-- In whole seconds, with an impulse in between. -/
theorem grids_judged_in_seconds :
    DormandPrince.integrator.ScreensTimes [dormandPrince] ∧
      (23100.0 : Float).isFinite = true ∧ (0.0 : Float) < 23100.0 ∧
      ∀ s, (⟨132712440018.0, .default⟩ : Propagator Float).propagate DormandPrince.integrator s
        ⟨0.0⟩ 112500.0 [noonBurn] (some 23100.0) ≠ .error (.refused .outputTimes) := by
  have finite : (23100.0 : Float).isFinite = true := by decide
  have pos : (0.0 : Float) < 23100.0 := by decide
  obtain ⟨judged, stops⟩ :=
    grids_judged ⟨132712440018.0, .default⟩ ⟨0.0⟩ 112500.0 [noonBurn] DormandPrince.screensTimes
      finite pos
  refine ⟨DormandPrince.screensTimes, finite, pos, fun s refused => ?_⟩
  obtain ⟨span, mem, lt, times, grid, not⟩ := stops s refused
  have judges := ((judged span mem lt).2 times grid).1
  have whole (n : Nat) (bits : n < 2 ^ 53) : value (Float.ofNat n) = n * 2 ^ (0 : ℤ) := by
    rw [value_ofNat bits, zpow_zero, mul_one]
  have zero : value 0.0 = (0 : ℕ) * 2 ^ (0 : ℤ) := by rw [value_zero, Nat.cast_zero, zero_mul]
  have noon := whole 43200 (by norm_num)
  have step := whole 23100 (by norm_num)
  rw [between_noonBurn (by decide)] at mem
  rcases List.mem_pair.mp mem with rfl | rfl
  · exact not (judges.units 0 0 43200 23100 ⟨by norm_num, zero, noon, by norm_num, step⟩)
  · exact not (judges.units 0 43200 112500 23100
      ⟨by norm_num, noon, whole 112500 (by norm_num), by norm_num, step⟩)

/-- The start and three steps are less than the end, but the sum that stands for them is rounded
beyond it, and every integrator that screens output times refuses them. -/
theorem grid_beyond_end :
    ∃ span ∈ Span.between ⟨0.0⟩ 112500.3 0.0 (Maneuver.sort [noonBurn]), ∃ times,
      span.start < span.final ∧ span.grid 23100.1 = .ok times ∧ ¬ span.Accepts times ∧
        ∀ (integrator : Integrator Float) (methods : List String),
          integrator.ScreensTimes methods → dormandPrince ∈ methods → ∀ s : State Float,
            integrator.sample .default (State.coastRate 132712440018.0) span.start span.final s
              times = .error (.refused .outputTimes) := by
  have beyond : (match Span.grid 23100.1 (⟨43200.0, 112500.3, none⟩ : Span Float) with
      | .ok times => times.any (· > 112500.3)
      | .error _ => false) = true := by decide +kernel
  split at beyond
  · next times grid =>
    obtain ⟨t, ht, above⟩ := List.any_eq_true.mp beyond
    have not : ¬ Span.Accepts ⟨43200.0, 112500.3, none⟩ times := fun accepted =>
      float_not_le_of_lt (of_decide_eq_true above) (accepted.within t ht).2
    have first := Span.start_le_of_grid (by decide) (by decide) (by decide) (by decide) grid
    refine ⟨⟨43200.0, 112500.3, none⟩, ?_, times, by decide, grid, not, ?_⟩
    · rw [between_noonBurn (by decide)]
      exact .tail _ (.head _)
    · intro integrator methods screens known s
      exact (screens.refuses (by decide) first).mpr ⟨known, not⟩
  · cases beyond

end Propagator

end LowThrust
