import LowThrust.Proofs.Binary64.Arithmetic
import LowThrust.Proofs.Leg.Step
import LowThrust.Propagation.Span

/-!
The output times within a span in binary64. They are counted, set apart and added to the start by
roundings of their own; all of these keep the order of their operands, so that no time is before the
one that precedes it.
-/

namespace LowThrust.Span

open Binary64

section Ticks

variable {α : Type} [Scalar α]

/-- The time after so many steps. -/
def tick (start apart : α) : Nat → α
  | 0 => start
  | i + 1 => start + Scalar.ofNat (i + 1) * apart

theorem progression_eq_map (start apart : α) (n : Nat) :
    progression start apart n = (List.range n).map (tick start apart) := by
  cases n with
  | zero => rfl
  | succ n =>
    rw [progression, List.range_succ_eq_map, List.map_cons, List.map_map]
    rfl

/-- The distance of output times as it is left by a sum and a difference. -/
def apart (step : α) (span : Span α) : α := span.start + step - span.start

end Ticks

/-! ### Operands of a grid -/

/-- A span of positive length that does not start below zero, and a step to divide it. -/
structure Divisible (span : Span Float) (step : Float) : Prop where
  start : IsNonneg span.start
  final : IsNonneg span.final
  lt : value span.start < value span.final
  pos : 0 < value step
  step : IsNonneg step

theorem not_lt_zero_of_mem_between {start : Epoch Float} {duration current : Float}
    {ms : List (Maneuver Float)} {span : Span Float} (h : span ∈ between start duration current ms)
    (nonneg : ¬ current < 0.0) : ¬ span.start < 0.0 := by
  induction ms generalizing current with
  | nil =>
    rw [between, List.mem_singleton] at h
    rwa [h]
  | cons m ms ih =>
    rw [between] at h
    split at h
    · exact ih h nonneg
    · next within =>
      rw [not_or] at within
      rcases List.mem_cons.mp h with rfl | h
      · exact nonneg
      · exact ih h within.1

section Count

variable {span : Span Float} {step : Float} (pos : 0.0 < step)

include pos

theorem outputCount_eq_ok_iff {n : ℤ} :
    span.outputCount step = .ok n ↔
      ((span.final - span.start) / step).isFinite = true ∧
        n = max 1 (ceil ((span.final - span.start) / step)) ∧ n < outputLimit := by
  have nonzero : (step == 0.0) = false := by
    rw [← Bool.not_eq_true, beq_iff_rank]
    exact fun same => (lt_iff_rank.mp pos).2.2.ne' same.2.2
  have finite : Scalar.isFinite ((span.final - span.start) / step) =
    ((span.final - span.start) / step).isFinite := rfl
  have rounded : Scalar.ceil ((span.final - span.start) / step) =
    ceil ((span.final - span.start) / step) := rfl
  simp only [outputCount, nonzero, finite, rounded, gt_iff_lt, pos, Bool.false_eq_true, if_false,
    if_true]
  split
  · next infinite =>
    refine iff_of_false (by rintro ⟨⟩) fun found => ?_
    rw [found.1] at infinite
    cases infinite
  · next finite =>
    split
    · next fits =>
      constructor
      · rintro ⟨⟩
        exact ⟨by simpa using finite, rfl, fits⟩
      · rintro ⟨-, rfl, -⟩
        rfl
    · next exceeds =>
      exact iff_of_false (by rintro ⟨⟩) fun found => exceeds (found.2.1 ▸ found.2.2)

theorem exists_grid_iff :
    (∃ times, span.grid step = .ok times) ↔
      ((span.final - span.start) / step).isFinite = true ∧
        ceil ((span.final - span.start) / step) < outputLimit := by
  constructor
  · rintro ⟨times, h⟩
    obtain ⟨n, counted, -⟩ := bind_eq_ok_iff.mp h
    obtain ⟨finite, rfl, fits⟩ := (outputCount_eq_ok_iff pos).mp counted
    exact ⟨finite, (le_max_right _ _).trans_lt fits⟩
  · rintro ⟨finite, fits⟩
    have counted := (outputCount_eq_ok_iff pos).mpr ⟨finite, rfl, max_lt (by decide) fits⟩
    exact ⟨_, bind_eq_ok_iff.mpr ⟨_, counted, rfl⟩⟩

/-- The steps between the start of a span and the last output time before its end. -/
theorem exists_of_grid {times : List Float} (h : span.grid step = .ok times) :
    ((span.final - span.start) / step).isFinite = true ∧
      ∃ k : Nat, k + 1 < 2 ^ 60 ∧
        times = closeAt span.final (progression span.start (span.apart step) (k + 1)) ∧
        (1 ≤ k → (k : ℤ) < ceil ((span.final - span.start) / step)) := by
  obtain ⟨n, counted, h⟩ := bind_eq_ok_iff.mp h
  obtain rfl := pure_eq_ok_iff.mp h
  obtain ⟨finite, count, fits⟩ := (outputCount_eq_ok_iff pos).mp counted
  obtain ⟨k, rfl⟩ : ∃ k : Nat, n = (k + 1 : ℕ) := ⟨n.toNat - 1, by omega⟩
  rw [outputLimit] at fits
  exact ⟨finite, k, by omega, rfl, fun some => by omega⟩

end Count

namespace Divisible

variable {span : Span Float} {step : Float}

/-- Where there is a grid, the numbers it is made of are finite. -/
theorem of_grid (start : ¬ span.start < 0.0) (lt : span.start < span.final)
    (finite : step.isFinite = true) (pos : 0.0 < step)
    (count : ((span.final - span.start) / step).isFinite = true) : span.Divisible step := by
  have length := isFinite_of_pack (u := .sub .binary64 _ _) (isFinite_dividend count finite)
  obtain ⟨final, first⟩ : span.final.isFinite = true ∧ span.start.isFinite = true :=
    isFinite_operands_sub length
  have nonneg : 0 ≤ value span.start := by
    rw [lt_iff_value first (by decide), value_zero] at start
    exact not_lt.mp start
  rw [lt_iff_value first final] at lt
  rw [lt_iff_value (by decide) finite, value_zero] at pos
  exact ⟨⟨first, nonneg⟩, ⟨final, nonneg.trans lt.le⟩, lt, pos, ⟨finite, pos.le⟩⟩

variable (h : span.Divisible step)

include h

theorem length : Rounds (value span.final - value span.start) (span.final - span.start) :=
  rounds_sub h.final h.start h.lt.le

theorem isNonneg_length : IsNonneg (span.final - span.start) :=
  (h.length.value_le h.final (sub_nonneg.mpr h.lt.le) (sub_le_self _ h.start.nonneg)).1

theorem count : Rounds (value (span.final - span.start) / value step)
    ((span.final - span.start) / step) :=
  rounds_div h.isNonneg_length h.step h.pos

/-- As many steps as are counted have room, but for the rounding of the length. -/
theorem mul_step_lt {k : Nat} (bits : k < 2 ^ 53)
    (lt : k < value ((span.final - span.start) / step)) :
    k * value step < value (span.final - span.start) := by
  rw [← value_ofNat bits] at lt ⊢
  have nonneg := isNonneg_ofNat (lt_overflow_of_lt (bits.trans (by norm_num)))
  rw [← lt_div_iff₀ h.pos]
  exact h.count.lt_of_value_lt nonneg (div_nonneg h.isNonneg_length.nonneg h.pos.le) lt

variable (some : 1 < value ((span.final - span.start) / step))

include some

/-- Where more than one step is counted, there is room for one. -/
theorem step_lt : value step < value span.final - value span.start := by
  have lt := h.mul_step_lt (k := 1) (by norm_num) (by exact_mod_cast some)
  rw [Nat.cast_one, one_mul] at lt
  exact h.length.lt_of_value_lt h.step (sub_nonneg.mpr h.lt.le) lt

theorem first : IsNonneg (span.start + step) ∧ value span.start ≤ value (span.start + step) ∧
    value (span.start + step) ≤ value span.final := by
  have sum := rounds_add h.start h.step
  have room := h.step_lt some
  obtain ⟨nonneg, le⟩ := sum.value_le h.final (add_nonneg h.start.nonneg h.pos.le) (by linarith)
  exact ⟨nonneg, sum.le_value nonneg.finite h.start (by linarith [h.pos]), le⟩

theorem rounds_apart :
    Rounds (value (span.start + step) - value span.start) (span.apart step) :=
  rounds_sub (h.first some).1 h.start (h.first some).2.1

theorem isNonneg_apart : IsNonneg (span.apart step) := by
  obtain ⟨nonneg, above, -⟩ := h.first some
  exact ((h.rounds_apart some).value_le nonneg (sub_nonneg.mpr above)
    (sub_le_self _ h.start.nonneg)).1

end Divisible

/-- The times of a grid: as many as are counted, closed by the end. -/
theorem ticks_of_grid {span : Span Float} {step : Float} (start : ¬ span.start < 0.0)
    (lt : span.start < span.final) (finite : step.isFinite = true) (pos : 0.0 < step)
    {times : List Float} (h : span.grid step = .ok times) :
    span.Divisible step ∧ ∃ k : Nat, k < overflow ∧
      times = closeAt span.final (progression span.start (span.apart step) (k + 1)) ∧
      (1 ≤ k → k < value ((span.final - span.start) / step)) := by
  obtain ⟨count, k, few, eq, fits⟩ := exists_of_grid pos h
  have divisible := Divisible.of_grid start lt finite pos count
  refine ⟨divisible, k, lt_overflow_of_lt (by omega), eq, fun some => ?_⟩
  have fits := fits some
  rw [ceil_eq (divisible.count.isNonneg count), Int.lt_ceil] at fits
  exact_mod_cast fits

/-! ### Order of output times -/

section Order

variable {start apart : Float} (hs : IsNonneg start) (ha : IsNonneg apart)

include hs ha

omit hs in
theorem isExtended_offset {i : Nat} (lt : i < overflow) : IsExtended (Float.ofNat i * apart) :=
  (rounds_mul (isNonneg_ofNat lt) ha).isExtended

omit hs in
theorem offset_le_offset {i j : Nat} (le : i ≤ j) (lt : j < overflow) :
    Float.ofNat i * apart ≤ Float.ofNat j * apart := by
  have hi := isNonneg_ofNat (le.trans_lt lt)
  have hj := isNonneg_ofNat lt
  refine (rounds_mul hi ha).le (rounds_mul hj ha) (mul_nonneg hi.nonneg ha.nonneg) ?_
  refine mul_le_mul_of_nonneg_right ?_ ha.nonneg
  rw [← le_iff_value hi.finite hj.finite]
  exact (rounds_ofNat (le.trans_lt lt)).le (rounds_ofNat lt) (Nat.cast_nonneg _)
    (by exact_mod_cast le)

theorem start_le_tick {i : Nat} (lt : i < overflow) : start ≤ tick start apart i := by
  cases i with
  | zero => exact (le_iff_value hs.finite hs.finite).mpr le_rfl
  | succ i => exact le_add hs (isExtended_offset ha lt)

theorem tick_le_tick {i j : Nat} (le : i ≤ j) (lt : j < overflow) :
    tick start apart i ≤ tick start apart j := by
  cases i with
  | zero => exact start_le_tick hs ha lt
  | succ i =>
    obtain ⟨j, rfl⟩ : ∃ n, j = n + 1 := ⟨j - 1, by omega⟩
    exact add_le_add_left hs (isExtended_offset ha (le.trans_lt lt)) (isExtended_offset ha lt)
      (offset_le_offset ha le lt)

end Order

/-! ### Values of output times -/

/-- Successive multiples of a number are told apart as long as a significand has bits for it. -/
theorem value_ne_of_rounds {h x y : Float} (hh : IsNonneg h) (pos : 0 < value h) {i : Nat}
    (bits : i + 1 < 2 ^ 52) (hx : Rounds (i * value h) x) (hy : Rounds ((i + 1 : ℕ) * value h) y)
    (nx : IsNonneg x) (ny : IsNonneg y) : value x ≠ value y := by
  intro same
  obtain ⟨v, hv, -, eq⟩ := nx.exists_decode
  have unit : (0 : ℚ) < 2 ^ v.exponent := zpow_pos two_pos _
  obtain ⟨near, near'⟩ := abs_le.mp (hx.error_le nx.finite nx hv le_rfl)
  obtain ⟨close, close'⟩ := abs_le.mp (hy.error_le ny.finite nx hv same.ge)
  push_cast at close close'
  have fine : value h ≤ 2 ^ v.exponent := by linarith
  rcases (canonical_of_decode hv).full with full | least
  · have full : ((2 ^ 52 : ℕ) : ℚ) ≤ v.significand := by exact_mod_cast full
    have large : (2 ^ 52 : ℕ) * 2 ^ v.exponent ≤ value x := by
      rw [eq, Finite.magnitude]
      exact mul_le_mul_of_nonneg_right full unit.le
    have few : ((i + 2 : ℕ) : ℚ) ≤ (2 ^ 52 : ℕ) := by exact_mod_cast (by omega : i + 2 ≤ 2 ^ 52)
    push_cast at large few
    nlinarith
  · obtain ⟨n, hn⟩ := hh.exists_units
    rw [least] at unit fine
    have one : n = 1 := by
      have some : 0 < n := by
        rw [Nat.pos_iff_ne_zero]
        rintro rfl
        simp [hn] at pos
      have few : (n : ℚ) ≤ 1 := by
        refine le_of_mul_le_mul_right ?_ unit
        rwa [← hn, one_mul]
      have few : n ≤ 1 := by exact_mod_cast few
      omega
    rw [hn, one, Nat.cast_one, one_mul] at hx hy
    rw [hx.value_of_units nx.finite (by omega) le_rfl,
      hy.value_of_units ny.finite (by omega) le_rfl] at same
    have same := mul_right_cancel₀ unit.ne' same
    push_cast at same
    linarith

/-- Whole numbers of a unit for the ends of a span and a step; a significand has room for each of
them. -/
structure InUnits (span : Span Float) (step : Float) (e : ℤ) (a b n : ℕ) : Prop where
  least : -1074 ≤ e
  start : value span.start = a * 2 ^ e
  final : value span.final = b * 2 ^ e
  bits : b < 2 ^ 53
  step : value step = n * 2 ^ e

namespace Divisible

variable {span : Span Float} {step : Float} (h : span.Divisible step)

/-! #### Spans that start at zero -/

section Zero

variable (zero : value span.start = 0) (some : 1 < value ((span.final - span.start) / step))

include h zero

theorem length_of_zero : value (span.final - span.start) = value span.final := by
  have length := h.length
  rw [zero, sub_zero] at length
  exact (length.value_eq h.final).2

theorem room_of_zero {k : Nat} (bits : k < 2 ^ 53)
    (counted : k < value ((span.final - span.start) / step)) :
    k * value step < value span.final := by
  have room := h.mul_step_lt bits counted
  rwa [h.length_of_zero zero] at room

include some

theorem apart_of_zero : value (span.apart step) = value step := by
  have sum := rounds_add h.start h.step
  have difference := h.rounds_apart some
  rw [zero, zero_add] at sum
  rw [zero, sub_zero] at difference
  rw [(difference.value_eq (h.first some).1).2, (sum.value_eq h.step).2]

/-- Each time is the rounding of a multiple of the step. -/
theorem rounds_tick_of_zero {i : Nat} (bits : i < 2 ^ 53) (room : i * value step ≤ value span.final) :
    ∃ x, Rounds (i * value step) x ∧ IsNonneg x ∧ IsNonneg (tick span.start (span.apart step) i) ∧
      value (tick span.start (span.apart step) i) = value x := by
  have large := isNonneg_ofNat (lt_overflow_of_lt (bits.trans (by norm_num)))
  have offset := rounds_mul large (h.isNonneg_apart some)
  rw [value_ofNat bits, h.apart_of_zero zero some] at offset
  have nonneg := (offset.value_le h.final (mul_nonneg i.cast_nonneg h.pos.le) room).1
  refine ⟨_, offset, nonneg, ?_⟩
  cases i with
  | zero =>
    have least := (offset.value_le h.start (by simp) (by simp [zero])).2
    exact ⟨h.start, (zero.trans_le nonneg.nonneg).antisymm least⟩
  | succ i =>
    have sum := rounds_add h.start nonneg
    rw [zero, zero_add] at sum
    exact sum.value_eq nonneg

end Zero

/-! #### Whole numbers of a unit -/

section Units

variable {e : ℤ} {a b n : ℕ}

variable (hu : span.InUnits step e a b n)

include h hu

theorem exact_of_units {q : ℚ} {x : Float} {m : ℕ} (hx : Rounds q x) (hq : q = m * 2 ^ e)
    (le : m ≤ b) : IsNonneg x ∧ value x = m * 2 ^ e := by
  have unit : (0 : ℚ) < 2 ^ e := zpow_pos two_pos _
  have small : (m * 2 ^ e : ℚ) ≤ value span.final := by
    rw [hu.final]
    exact mul_le_mul_of_nonneg_right (by exact_mod_cast le) unit.le
  rw [hq] at hx
  have nonneg := (hx.value_le h.final (mul_nonneg m.cast_nonneg unit.le) small).1
  exact ⟨nonneg, hx.value_of_units nonneg.finite (le.trans_lt hu.bits) hu.least⟩

theorem start_lt_final_of_units : a < b := by
  have lt := h.lt
  rw [hu.start, hu.final] at lt
  exact_mod_cast lt_of_mul_lt_mul_right lt (zpow_pos two_pos e).le

theorem step_pos_of_units : 0 < n := by
  have pos := h.pos
  rw [hu.step] at pos
  exact_mod_cast (mul_pos_iff_of_pos_right (zpow_pos two_pos e)).mp pos

theorem length_of_units : value (span.final - span.start) = (b - a : ℕ) * 2 ^ e := by
  refine (h.exact_of_units hu h.length ?_ (Nat.sub_le b a)).2
  rw [hu.start, hu.final, Nat.cast_sub (h.start_lt_final_of_units hu).le, sub_mul]

theorem count_le_of_units : value ((span.final - span.start) / step) ≤ b := by
  have nonneg := isNonneg_ofNat (lt_overflow_of_lt (hu.bits.trans (by norm_num)))
  rw [← value_ofNat hu.bits]
  refine (h.count.value_le nonneg (div_nonneg h.isNonneg_length.nonneg h.pos.le) ?_).2
  have within : b - a ≤ b * n :=
    (Nat.sub_le b a).trans (Nat.le_mul_of_pos_right b (h.step_pos_of_units hu))
  rw [value_ofNat hu.bits, div_le_iff₀ h.pos, h.length_of_units hu, hu.step, ← mul_assoc]
  exact mul_le_mul_of_nonneg_right (by exact_mod_cast within) (zpow_pos two_pos e).le

theorem room_of_units {k : ℕ} (counted : k < value ((span.final - span.start) / step)) :
    k < 2 ^ 53 ∧ a + k * n < b := by
  have few : k < b := by exact_mod_cast counted.trans_le (h.count_le_of_units hu)
  have room := h.mul_step_lt (few.trans hu.bits) counted
  rw [hu.step, h.length_of_units hu, ← mul_assoc] at room
  have room : k * n < b - a := by
    exact_mod_cast lt_of_mul_lt_mul_right room (zpow_pos two_pos e).le
  exact ⟨few.trans hu.bits, by omega⟩

/-- Without rounding, each time is the start and a multiple of the step. -/
theorem tick_of_units (some : 1 < value ((span.final - span.start) / step)) {i : ℕ}
    (bits : i < 2 ^ 53) (room : a + i * n ≤ b) :
    IsNonneg (tick span.start (span.apart step) i) ∧
      value (tick span.start (span.apart step) i) = (a + i * n : ℕ) * 2 ^ e := by
  cases i with
  | zero => exact ⟨h.start, by rw [Nat.zero_mul, Nat.add_zero]; exact hu.start⟩
  | succ i =>
    have one : n ≤ (i + 1) * n := Nat.le_mul_of_pos_left n i.succ_pos
    have sum : value (span.start + step) = (a + n : ℕ) * 2 ^ e := by
      refine (h.exact_of_units hu (rounds_add h.start h.step) ?_ (by omega)).2
      rw [hu.start, hu.step, Nat.cast_add, add_mul]
    have apart : value (span.apart step) = n * 2 ^ e := by
      refine (h.exact_of_units hu (h.rounds_apart some) ?_ (by omega)).2
      rw [sum, hu.start, Nat.cast_add]
      ring
    have large := isNonneg_ofNat (lt_overflow_of_lt (bits.trans (by norm_num)))
    obtain ⟨nonneg, offset⟩ :=
      h.exact_of_units (m := (i + 1) * n) hu (rounds_mul large (h.isNonneg_apart some))
        (by rw [value_ofNat bits, apart, Nat.cast_mul, mul_assoc]) (by omega)
    refine h.exact_of_units hu (rounds_add h.start nonneg) ?_ room
    change value span.start + value (Float.ofNat (i + 1) * span.apart step) = _
    rw [offset, hu.start, ← add_mul, ← Nat.cast_add]

end Units

/-! #### Wide steps -/

section Wide

include h in
theorem count_le_of_wide (wide : value span.final ≤ 2 ^ 50 * value step) :
    value ((span.final - span.start) / step) ≤ 2 ^ 50 := by
  have length := (h.length.value_le h.final (sub_nonneg.mpr h.lt.le)
    (sub_le_self _ h.start.nonneg)).2
  have bound : value (Float.ofNat (2 ^ 50)) = 2 ^ 50 := by
    rw [value_ofNat (by norm_num), Nat.cast_pow, Nat.cast_ofNat]
  rw [← bound]
  refine (h.count.value_le (isNonneg_ofNat (lt_overflow_of_lt (by norm_num)))
    (div_nonneg h.isNonneg_length.nonneg h.pos.le) ?_).2
  rw [bound, div_le_iff₀ h.pos]
  exact length.trans wide

variable {w : Finite} (decoded : decode span.final = .finite w)
  (some : 1 < value ((span.final - span.start) / step))

include h decoded some

/-- A sum and a difference, each rounded by at most half of the last place of the final time. -/
theorem step_sub_le_apart : value step - 2 ^ w.exponent ≤ value (span.apart step) := by
  obtain ⟨nonneg, above, le⟩ := h.first some
  have apart := h.isNonneg_apart some
  have sum := (rounds_add h.start h.step).error_le nonneg.finite h.final decoded le
  have small : value (span.apart step) ≤ value (span.start + step) :=
    ((h.rounds_apart some).value_le nonneg (sub_nonneg.mpr above) (sub_le_self _ h.start.nonneg)).2
  have difference := (h.rounds_apart some).error_le apart.finite h.final decoded (small.trans le)
  obtain ⟨-, sum⟩ := abs_le.mp sum
  obtain ⟨-, difference⟩ := abs_le.mp difference
  linarith

/-- A time within the span is a product and a sum, each rounded as little. -/
theorem tick_near {i : Nat} (bits : i < 2 ^ 53)
    (within : tick span.start (span.apart step) i ≤ span.final) :
    IsNonneg (tick span.start (span.apart step) i) ∧
      |value span.start + i * value (span.apart step) -
        value (tick span.start (span.apart step) i)| ≤ 2 ^ w.exponent := by
  cases i with
  | zero =>
    refine ⟨h.start, ?_⟩
    rw [Nat.cast_zero, zero_mul, add_zero, tick, sub_self, abs_zero]
    exact (zpow_pos two_pos _).le
  | succ i =>
    have large := isNonneg_ofNat (lt_overflow_of_lt (bits.trans (by norm_num)))
    have product := rounds_mul large (h.isNonneg_apart some)
    have offset_le := float_le_trans (le_add_left h.start product.isExtended) within
    have offset := product.isExtended.of_le h.final.finite offset_le
    have sum := rounds_add h.start offset
    have nonneg := sum.isExtended.of_le h.final.finite within
    have near := product.error_le offset.finite h.final decoded
      ((le_iff_value offset.finite h.final.finite).mp offset_le)
    have near' :
        |value span.start + value (Float.ofNat (i + 1) * span.apart step) -
          value (tick span.start (span.apart step) (i + 1))| ≤ 2 ^ w.exponent / 2 :=
      sum.error_le nonneg.finite h.final decoded
        ((le_iff_value nonneg.finite h.final.finite).mp within)
    rw [value_ofNat bits] at near
    obtain ⟨low, high⟩ := abs_le.mp near
    obtain ⟨low', high'⟩ := abs_le.mp near'
    exact ⟨nonneg, abs_le.mpr ⟨by linarith, by linarith⟩⟩

/-- Steps of more than three units in the last place of the final time are not lost. -/
theorem tick_lt_tick_succ (wide : 3 * 2 ^ w.exponent < value step) {i : Nat}
    (bits : i + 1 < 2 ^ 53) (within : tick span.start (span.apart step) (i + 1) ≤ span.final) :
    IsNonneg (tick span.start (span.apart step) i) ∧
      IsNonneg (tick span.start (span.apart step) (i + 1)) ∧
      value (tick span.start (span.apart step) i) <
        value (tick span.start (span.apart step) (i + 1)) := by
  have large := lt_overflow_of_lt (bits.trans (by norm_num))
  have order := tick_le_tick h.start (h.isNonneg_apart some) i.le_succ large
  obtain ⟨nonneg, near⟩ :=
    h.tick_near decoded some (i.lt_succ_self.trans bits) (float_le_trans order within)
  obtain ⟨nonneg', near'⟩ := h.tick_near decoded some bits within
  have apart := h.step_sub_le_apart decoded some
  obtain ⟨low, -⟩ := abs_le.mp near
  obtain ⟨-, high⟩ := abs_le.mp near'
  push_cast at high
  exact ⟨nonneg, nonneg', by linarith⟩

end Wide

end Divisible

end LowThrust.Span
