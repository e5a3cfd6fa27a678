import LowThrust.Proofs.Leg.Destination
import LowThrust.Proofs.Shooting.Balance
import LowThrust.Proofs.Shooting.IterationLimit
import LowThrust.Proofs.Shooting.Reference
import LowThrust.Proofs.Throttle.Coverage

/-!
Which way a leg is flown whose segments cover it. Under impulses, the forward half and the coast to
the matching point go forward in time and the backward half goes back. Under arcs of thrust no time
is left to coast, so that an evaluation has nothing to do with the Kepler solver.
-/

namespace LowThrust

/-! ### What a flight asks for -/

/-- The outcome of a run hangs on how it goes on for one duration: if that alone were otherwise, the
outcome might be so too. A way to go on may fail, so that a run asks for every duration that it comes
to. -/
def Asks {α σ β γ : Type} (run : (σ → α → β) → γ) (advance : σ → α → β) (dt : α) : Prop :=
  ∃ other : σ → α → β, (∀ s dt', dt' ≠ dt → other s dt' = advance s dt') ∧ run other ≠ run advance

/-- Where durations of one kind settle the outcome, no other ones are asked for. -/
theorem Asks.of_congr {α σ β γ : Type} {run : (σ → α → β) → γ} {advance : σ → α → β} {dt : α}
    {P : α → Prop} (asks : Asks run advance dt)
    (congr : ∀ other, (∀ s dt, P dt → other s dt = advance s dt) → run other = run advance) :
    P dt := by
  obtain ⟨other, same, differs⟩ := asks
  by_contra absent
  refine differs (congr other fun s dt' holds => same s dt' ?_)
  rintro rfl
  exact absent holds

namespace Flight

section Steps

variable {α : Type} [Scalar α] {coast coast' : Coast α} {arc : ThrustArc α} {thrust : α}
  {s : ThrottleSegment α} {f g : Flight α}

theorem coastTo_congr {clock : α}
    (h : coast' f.state.toMotion (clock - f.clock) = coast f.state.toMotion (clock - f.clock)) :
    f.coastTo coast' clock = f.coastTo coast clock := by
  rw [coastTo, coastTo, h]

theorem clock_of_throughArc (h : f.throughArc coast arc thrust s = .ok g) :
    g.clock = s.final.seconds := by
  obtain ⟨met, -, h⟩ := bind_eq_ok_iff.mp h
  obtain ⟨reached, -, h⟩ := bind_eq_ok_iff.mp h
  obtain rfl := pure_eq_ok_iff.mp h
  rfl

theorem clock_of_backThroughArc (h : f.backThroughArc coast arc thrust s = .ok g) :
    g.clock = s.start.seconds := by
  obtain ⟨met, -, h⟩ := bind_eq_ok_iff.mp h
  obtain ⟨reached, -, h⟩ := bind_eq_ok_iff.mp h
  obtain rfl := pure_eq_ok_iff.mp h
  rfl

end Steps

/-- Runs agree whose steps agree at the clocks at which the segments are entered. -/
theorem foldlM_congr_of_clocks
    {step step' : Flight ℝ → ThrottleSegment ℝ → Except (Fault ℝ) (Flight ℝ)}
    {leave : ThrottleSegment ℝ → ℝ} (left : ∀ f s g, step f s = .ok g → g.clock = leave s)
    {segments : List (ThrottleSegment ℝ)} {f : Flight ℝ}
    (same : ∀ before s after g, segments = before ++ s :: after →
      g.clock = lastClock leave f.clock before → step' g s = step g s) :
    segments.foldlM step' f = segments.foldlM step f := by
  induction segments generalizing f with
  | nil => rfl
  | cons s rest ih =>
    rw [List.foldlM_cons, List.foldlM_cons, same [] s rest f rfl rfl]
    cases stepped : step f s with
    | error => rfl
    | ok g =>
      refine ih fun before u after h split clock => same (s :: before) u after h ?_ ?_
      · rw [split, List.cons_append]
      · rw [clock, left f s g stepped, lastClock_cons]

end Flight

/-! ### Clocks of segments that fill a time -/

namespace ThrottleSegment

open Flight

variable {s : ThrottleSegment ℝ} {segments before after : List (ThrottleSegment ℝ)}
  {start final : Epoch ℝ}

theorem start_le_midpoint (forward : s.start ≤ s.final) : s.start.seconds ≤ s.midpoint := by
  have forward : s.start.mjd2000 ≤ s.final.mjd2000 := forward
  refine mul_le_mul_of_nonneg_right ?_ secondsPerDay_pos.le
  rw [Exact.literal_two]
  linarith

theorem midpoint_le_final (forward : s.start ≤ s.final) : s.midpoint ≤ s.final.seconds := by
  have forward : s.start.mjd2000 ≤ s.final.mjd2000 := forward
  refine mul_le_mul_of_nonneg_right ?_ secondsPerDay_pos.le
  rw [Exact.literal_two]
  linarith

theorem duration_nonneg (forward : s.start ≤ s.final) : 0 ≤ s.duration :=
  mul_nonneg (sub_nonneg.mpr forward) secondsPerDay_pos.le

namespace Fills

theorem split (h : Fills (before ++ s :: after) start final) :
    Fills before start s.start ∧ s.start ≤ s.final ∧ Fills after s.final final := by
  obtain ⟨t, first, rfl, forward, rest⟩ := fills_append_iff.mp h
  exact ⟨first, forward, rest⟩

theorem split_reverse (h : Fills (before ++ s :: after).reverse start final) :
    Fills after.reverse start s.start ∧ s.start ≤ s.final ∧ Fills before.reverse s.final final := by
  rw [List.reverse_append, List.reverse_cons, List.append_assoc, List.singleton_append] at h
  exact h.split

/-- Going forward, the middle of no segment is after the end of them all. -/
theorem lastClock_midpoint_le (h : Fills segments start final) {clock : ℝ}
    (le : clock ≤ start.seconds) : lastClock midpoint clock segments ≤ final.seconds := by
  induction segments generalizing start clock with
  | nil =>
    cases h
    exact le
  | cons s rest ih =>
    obtain ⟨rfl, forward, h⟩ := h
    rw [lastClock_cons]
    exact ih h (midpoint_le_final forward)

/-- Going back, the last middle is that of the first segment. -/
theorem le_lastClock_midpoint (h : Fills segments.reverse start final) {clock : ℝ}
    (le : final.seconds ≤ clock) : start.seconds ≤ lastClock midpoint clock segments := by
  rw [lastClock, List.getLast?_eq_head?_reverse]
  cases hs : segments.reverse with
  | nil =>
    rw [hs] at h
    cases h
    exact le
  | cons s rest =>
    rw [hs] at h
    obtain ⟨rfl, forward, -⟩ := h
    exact start_le_midpoint forward

theorem lastClock_final (h : Fills segments start final) :
    lastClock (fun s => s.final.seconds) start.seconds segments = final.seconds := by
  induction segments generalizing start with
  | nil =>
    cases h
    rfl
  | cons s rest ih =>
    obtain ⟨-, -, h⟩ := h
    rw [lastClock_cons]
    exact ih h

theorem lastClock_start (h : Fills segments.reverse start final) :
    lastClock (fun s => s.start.seconds) final.seconds segments = start.seconds := by
  rw [lastClock, List.getLast?_eq_head?_reverse]
  cases hs : segments.reverse with
  | nil =>
    rw [hs] at h
    cases h
    rfl
  | cons s rest =>
    rw [hs] at h
    obtain ⟨rfl, -, -⟩ := h
    rfl

end Fills

end ThrottleSegment

/-! ### Whole legs -/

namespace Transfer

section Burns

variable {α : Type} [Scalar α] (t : Transfer α) (coast : Coast α) (arc : ThrustArc α)

/-- The forward half of the leg under thrust. -/
def forwardBurn : Except (Fault α) (Flight α) :=
  t.forwardSegments.foldlM (Flight.throughArc coast arc t.spacecraft.thrust) t.departure

/-- The backward half of the leg under thrust. -/
def backwardBurn : Except (Fault α) (Flight α) :=
  t.backwardSegments.foldlM (Flight.backThroughArc coast arc t.spacecraft.thrust) t.arrival

theorem shootHighFidelity_eq : t.shootHighFidelity coast arc =
    t.forwardBurn coast arc >>= fun f => t.backwardBurn coast arc >>= (f.mismatch coast ·) := rfl

end Burns

/-- Under impulses, the coasts of the forward half and the one to the matching point take no
negative time, and those of the backward half no positive one. -/
structure CoastsInOrder (t : Transfer ℝ) (coast : Coast ℝ) : Prop where
  forward : ∀ dt, Asks t.forwardFlight coast dt → 0 ≤ dt
  backward : ∀ dt, Asks t.backwardFlight coast dt → dt ≤ 0
  closing : ∀ f g, t.forwardFlight coast = .ok f → t.backwardFlight coast = .ok g →
    ∀ dt, Asks (f.mismatch · g) coast dt → 0 ≤ dt

/-- Under thrust, no coast takes any time, no arc of the forward half negative time and none of the
backward half positive time. -/
structure BurnsInOrder (t : Transfer ℝ) (coast : Coast ℝ) (arc : ThrustArc ℝ) : Prop where
  forward : ∀ dt, Asks (t.forwardBurn · arc) coast dt → dt = 0
  backward : ∀ dt, Asks (t.backwardBurn · arc) coast dt → dt = 0
  closing : ∀ f g, t.forwardBurn coast arc = .ok f → t.backwardBurn coast arc = .ok g →
    ∀ dt, Asks (f.mismatch · g) coast dt → dt = 0
  forwardArcs : ∀ dt, Asks (t.forwardBurn coast) arc dt → 0 ≤ dt
  backwardArcs : ∀ dt, Asks (t.backwardBurn coast) arc dt → dt ≤ 0

variable {t : Transfer ℝ} {coast coast' : Coast ℝ} {arc arc' : ThrustArc ℝ}

/-- The halves of a covered leg fill it up to some epoch and from there on. -/
theorem exists_fills_halves (nonempty : t.throttles ≠ [])
    (covered : ThrottleSegment.checkCoverage t.throttles (some t.startEpoch) (some t.finalEpoch) 0 =
      .ok ()) :
    ∃ middle, ThrottleSegment.Fills t.forwardSegments t.startEpoch middle ∧
      ThrottleSegment.Fills t.backwardSegments.reverse middle t.finalEpoch := by
  have fills := ThrottleSegment.fills_of_covers nonempty
    (ThrottleSegment.checkCoverage_eq_ok_iff_covers.mp covered)
  rw [← t.forwardSegments_append_backwardSegments] at fills
  exact ThrottleSegment.fills_append_iff.mp fills

section Halves

variable {middle : Epoch ℝ} (first : ThrottleSegment.Fills t.forwardSegments t.startEpoch middle)
  (second : ThrottleSegment.Fills t.backwardSegments.reverse middle t.finalEpoch)

include first in
theorem forwardFlight_congr (h : ∀ m dt, 0 ≤ dt → coast' m dt = coast m dt) :
    t.forwardFlight coast' = t.forwardFlight coast := by
  refine Flight.foldlM_congr_of_clocks (fun _ _ _ => Flight.clock_of_impulsive)
    fun before s after g split clock => ?_
  rw [split] at first
  obtain ⟨begins, forward, -⟩ := first.split
  have later : g.clock ≤ s.midpoint := clock.trans_le ((begins.lastClock_midpoint_le le_rfl).trans
    (ThrottleSegment.start_le_midpoint forward))
  rw [Flight.impulsive, Flight.impulsive, Flight.coastTo_congr (h _ _ (sub_nonneg.mpr later))]

include second in
theorem backwardFlight_congr (h : ∀ m dt, dt ≤ 0 → coast' m dt = coast m dt) :
    t.backwardFlight coast' = t.backwardFlight coast := by
  refine Flight.foldlM_congr_of_clocks (fun _ _ _ => Flight.clock_of_impulsive)
    fun before s after g split clock => ?_
  rw [split] at second
  obtain ⟨-, forward, ends⟩ := second.split_reverse
  have earlier : s.midpoint ≤ g.clock := ((ThrottleSegment.midpoint_le_final forward).trans
    (ends.le_lastClock_midpoint le_rfl)).trans_eq clock.symm
  rw [Flight.impulsive, Flight.impulsive, Flight.coastTo_congr (h _ _ (sub_nonpos.mpr earlier))]

include first in
theorem forwardBurn_congr (hc : ∀ m, coast' m 0 = coast m 0)
    (ha : ∀ s dt, 0 ≤ dt → arc' s dt = arc s dt) :
    t.forwardBurn coast' arc' = t.forwardBurn coast arc := by
  refine Flight.foldlM_congr_of_clocks (fun _ _ _ => Flight.clock_of_throughArc)
    fun before s after g split clock => ?_
  rw [split] at first
  obtain ⟨begins, forward, -⟩ := first.split
  have still : s.start.seconds - g.clock = 0 :=
    sub_eq_zero.mpr (clock.trans begins.lastClock_final).symm
  have met : g.coastTo coast' s.start.seconds = g.coastTo coast s.start.seconds := by
    refine Flight.coastTo_congr ?_
    rw [still, hc]
  simp only [Flight.throughArc, met, ha _ _ (ThrottleSegment.duration_nonneg forward)]

include second in
theorem backwardBurn_congr (hc : ∀ m, coast' m 0 = coast m 0)
    (ha : ∀ s dt, dt ≤ 0 → arc' s dt = arc s dt) :
    t.backwardBurn coast' arc' = t.backwardBurn coast arc := by
  refine Flight.foldlM_congr_of_clocks (fun _ _ _ => Flight.clock_of_backThroughArc)
    fun before s after g split clock => ?_
  rw [split] at second
  obtain ⟨-, forward, ends⟩ := second.split_reverse
  have still : s.final.seconds - g.clock = 0 :=
    sub_eq_zero.mpr (clock.trans ends.lastClock_start).symm
  have met : g.coastTo coast' s.final.seconds = g.coastTo coast s.final.seconds := by
    refine Flight.coastTo_congr ?_
    rw [still, hc]
  simp only [Flight.backThroughArc, met,
    ha _ _ (neg_nonpos.mpr (ThrottleSegment.duration_nonneg forward))]

include first second

theorem clock_le_of_flights {f g : Flight ℝ} (hf : t.forwardFlight coast = .ok f)
    (hg : t.backwardFlight coast = .ok g) : f.clock ≤ g.clock := by
  rw [Flight.clock_of_foldlM_impulsive hf, Flight.clock_of_foldlM_impulsive hg]
  exact (first.lastClock_midpoint_le le_rfl).trans (second.le_lastClock_midpoint le_rfl)

theorem clock_eq_of_burns {f g : Flight ℝ} (hf : t.forwardBurn coast arc = .ok f)
    (hg : t.backwardBurn coast arc = .ok g) : f.clock = g.clock := by
  rw [Flight.clock_of_foldlM (fun _ _ _ => Flight.clock_of_throughArc) hf,
    Flight.clock_of_foldlM (fun _ _ _ => Flight.clock_of_backThroughArc) hg]
  exact first.lastClock_final.trans second.lastClock_start.symm

theorem coastsInOrder_of_fills (coast : Coast ℝ) : t.CoastsInOrder coast where
  forward dt asks := asks.of_congr fun _ => forwardFlight_congr first
  backward dt asks := asks.of_congr fun _ => backwardFlight_congr second
  closing f g hf hg dt asks := asks.of_congr fun other same => by
    have order := sub_nonneg.mpr (clock_le_of_flights first second hf hg)
    rw [Flight.mismatch, Flight.mismatch, Flight.coastTo_congr (same _ _ order)]

theorem burnsInOrder_of_fills (coast : Coast ℝ) (arc : ThrustArc ℝ) : t.BurnsInOrder coast arc where
  forward dt asks := asks.of_congr (P := (· = 0)) fun _ same =>
    forwardBurn_congr first (fun m => same m 0 rfl) fun _ _ _ => rfl
  backward dt asks := asks.of_congr (P := (· = 0)) fun _ same =>
    backwardBurn_congr second (fun m => same m 0 rfl) fun _ _ _ => rfl
  closing f g hf hg dt asks := asks.of_congr (P := (· = 0)) fun other same => by
    have still := sub_eq_zero.mpr (clock_eq_of_burns first second hf hg).symm
    rw [Flight.mismatch, Flight.mismatch, Flight.coastTo_congr (same _ _ still)]
  forwardArcs dt asks := asks.of_congr fun _ => forwardBurn_congr first fun _ => rfl
  backwardArcs dt asks := asks.of_congr fun _ => backwardBurn_congr second fun _ => rfl

/-- Where no coast takes any time, only what is done in no time matters of a way to coast. -/
theorem shootHighFidelity_congr (rests : ∀ m, coast' m 0 = coast m 0) (arc : ThrustArc ℝ) :
    t.shootHighFidelity coast' arc = t.shootHighFidelity coast arc := by
  rw [shootHighFidelity_eq, shootHighFidelity_eq,
    forwardBurn_congr first rests fun _ _ _ => rfl, backwardBurn_congr second rests fun _ _ _ => rfl]
  cases hf : t.forwardBurn coast arc with
  | error => rfl
  | ok f =>
    cases hg : t.backwardBurn coast arc with
    | error => rfl
    | ok g =>
      have still := sub_eq_zero.mpr (clock_eq_of_burns first second hf hg).symm
      have met : f.coastTo coast' g.clock = f.coastTo coast g.clock := by
        refine Flight.coastTo_congr ?_
        rw [still, rests]
      simp only [bind, Except.bind, Flight.mismatch, met]

theorem mismatchBy_congr (thrusts : t.highFidelity = true) (rests : ∀ m, coast' m 0 = coast m 0)
    (integrator : Integrator ℝ) :
    t.mismatchBy integrator coast' = t.mismatchBy integrator coast := by
  rw [mismatchBy, mismatchBy, if_pos thrusts, if_pos thrusts]
  cases Propagator.create t.mu t.config with
  | error => rfl
  | ok p => exact shootHighFidelity_congr first second rests _

end Halves

theorem coast_withKepler_zero (kepler : KeplerConfig ℝ) (m : Motion ℝ) :
    (t.withKepler kepler).coast m 0 = t.coast m 0 := by
  simp [coast, withKepler, Kepler.propagate, Kepler.Orbit.coast]

/-- A leg that its segments cover goes one way in each half. Under impulses, all coasts are forward
in time in the forward half and to the matching point, and backward in the other half. Under thrust,
no coast takes any time, and every arc goes the way of its half: so the settings of the Kepler
solver do not matter, and an evaluation fails only where an arc does. -/
theorem directions_of_covered (nonempty : t.throttles ≠ [])
    (covered : ThrottleSegment.checkCoverage t.throttles (some t.startEpoch) (some t.finalEpoch) 0 =
      .ok ()) :
    (∀ coast, t.CoastsInOrder coast) ∧
    (∀ coast arc, t.BurnsInOrder coast arc) ∧
    (t.highFidelity = true → ∀ integrator,
      (∀ kepler, (t.withKepler kepler).mismatch integrator = t.mismatch integrator) ∧
      (0 < t.mu → ∀ fault, t.mismatch integrator = .error fault →
        ∃ s dt thrust, t.thrustArc integrator ⟨t.mu, t.config⟩ s dt thrust = .error fault)) := by
  obtain ⟨middle, first, second⟩ := exists_fills_halves nonempty covered
  refine ⟨coastsInOrder_of_fills first second, burnsInOrder_of_fills first second,
    fun thrusts integrator => ⟨fun kepler => ?_, fun hmu => ?_⟩⟩
  · rw [mismatch_withKepler, mismatch]
    exact mismatchBy_congr first second thrusts (coast_withKepler_zero kepler) integrator
  · have still : t.mismatchBy integrator (fun m _ => .ok m) = t.mismatch integrator :=
      mismatchBy_congr first second thrusts (fun m => (coast_zero hmu m).symm) integrator
    rw [← still, mismatchBy_of_highFidelity hmu thrusts]
    exact t.shootHighFidelity_failsOnly (fun m _ => .ok m) fun s dt thrust fault failed =>
      ⟨s, dt, thrust, failed⟩

end Transfer

/-! ### A circular orbit -/

namespace CircularOrbit

/-- Through three segments that cover the leg, of which one takes no time. -/
noncomputable def coveredTransfer (highFidelity : Bool) : Transfer ℝ :=
  let t := transfer highFidelity
  { t with
    throttles := [⟨t.startEpoch, ⟨1⟩, ⟨0, 1, 0⟩⟩, ⟨⟨1⟩, ⟨1⟩, ⟨1, 0, 0⟩⟩,
      ⟨⟨1⟩, t.finalEpoch, ⟨1, 0, 1⟩⟩] }

theorem checkCoverage_coveredTransfer (highFidelity : Bool) :
    ThrottleSegment.checkCoverage (coveredTransfer highFidelity).throttles
      (some (coveredTransfer highFidelity).startEpoch)
      (some (coveredTransfer highFidelity).finalEpoch) 0 = .ok () := by
  rw [ThrottleSegment.checkCoverage_eq_ok_iff_covers]
  refine ThrottleSegment.covers_of_joined le_rfl ?_ rfl rfl ?_
  · intro s hs
    simp only [coveredTransfer, List.mem_cons, List.not_mem_nil, or_false] at hs
    obtain rfl | rfl | rfl := hs
    · exact zero_le_one (α := ℝ)
    · exact le_refl (1 : ℝ)
    · exact show (1 : ℝ) ≤ 8 by norm_num
  · simp [coveredTransfer]

/-- Even a Kepler solver that may not iterate at all is good enough for the leg under thrust. -/
theorem directions_of_coveredTransfer :
    (coveredTransfer false).CoastsInOrder (coveredTransfer false).coast ∧
    (∃ m, ((coveredTransfer true).withKepler ⟨0, 0⟩).mismatch splitIntegrator = .ok m) := by
  have covered := checkCoverage_coveredTransfer
  obtain ⟨coasts, -, -⟩ := Transfer.directions_of_covered (List.cons_ne_nil _ _) (covered false)
  obtain ⟨-, -, thrusts⟩ := Transfer.directions_of_covered (List.cons_ne_nil _ _) (covered true)
  obtain ⟨same, fails⟩ := thrusts rfl splitIntegrator
  refine ⟨coasts _, ?_⟩
  rw [same]
  cases evaluated : (coveredTransfer true).mismatch splitIntegrator with
  | ok m => exact ⟨m, rfl⟩
  | error fault =>
    obtain ⟨s, dt, thrust, failed⟩ := fails one_pos fault evaluated
    cases failed.symm.trans (thrustArc_splitIntegrator ..)

end CircularOrbit

end LowThrust
