import Mathlib
import LowThrust.Proofs.Propagation.Coasting
import LowThrust.Proofs.Shooting.Ballistic

/-!
Shooting with impulses against the numerical propagation of the same maneuvers. The forward half
of a leg and a propagation that stops at each maneuver go through the same states, span by span.
-/

namespace LowThrust

theorem toOption_eq_some_iff {ε β : Type} {x : Except ε β} {b : β} :
    x.toOption = some b ↔ x = .ok b := by
  cases x <;> simp [Except.toOption]

/-! ### Impulses and maneuvers -/

/-- The state after the impulse of a segment. -/
def Engine.strike {α : Type} [Scalar α] (e : Engine α) (segment : ThrottleSegment α)
    (s : State α) : State α :=
  let dv := e.impulse s.mass segment
  ⟨⟨s.position, s.velocity + dv * (kmPerMetre : α)⟩, e.massAfter s.mass dv⟩

namespace Spacecraft

section Maneuvers

variable {α : Type} [Scalar α] (sc : Spacecraft α)

/-- Full thrust on a mass over a segment, scaled by its throttle, as a maneuver in the middle of the
segment. -/
def maneuver (mass : α) (s : ThrottleSegment α) : Maneuver α where
  epoch := ⟨(s.start.mjd2000 + s.final.mjd2000) / 2.0⟩
  dv := (sc.thrust / mass * s.duration * s.value * (kmPerMetre : α)).toList
  isp := some sc.isp

/-- The maneuvers of segments. Each is sized by the mass that those before it leave by the rocket
equation. -/
def maneuvers : α → List (ThrottleSegment α) → List (Maneuver α)
  | _, [] => []
  | mass, s :: segments =>
    let dv := sc.thrust / mass * s.duration * s.value
    sc.maneuver mass s ::
      maneuvers (mass * Scalar.exp (-dv.norm / (sc.isp * standardGravity))) segments

/-- The masses in between are those of the impulses that shooting applies. -/
theorem maneuvers_cons (mass : α) (s : ThrottleSegment α) (segments : List (ThrottleSegment α)) :
    let engine := Engine.ofSpacecraft sc
    sc.maneuvers mass (s :: segments) =
      sc.maneuver mass s :: sc.maneuvers (engine.massAfter mass (engine.impulse mass s)) segments :=
  rfl

end Maneuvers

variable {sc : Spacecraft ℝ}

/-- The rocket equation is the same in metres and in kilometres. -/
theorem massRatio_maneuver (hisp : sc.isp ≠ 0) (mass : ℝ) (s : ThrottleSegment ℝ) :
    (sc.maneuver mass s).massRatio = .ok (Real.exp
      (-(sc.thrust / mass * s.duration * s.value).norm / (sc.isp * (standardGravity : ℝ)))) := by
  have divisor : sc.isp * (standardGravity : ℝ) * (kmPerMetre : ℝ) ≠ 0 :=
    mul_ne_zero (mul_ne_zero hisp standardGravity_pos.ne') kmPerMetre_pos.ne'
  simp only [Maneuver.massRatio, maneuver, Maneuver.size, checkedDiv, Exact.literal_zero,
    Exact.beq_iff, divisor, if_false, Vec3.magnitude_toList, Vec3.norm_mul _ kmPerMetre_pos.le,
    Except.map, Exact.exp_eq]
  rw [← neg_mul, mul_div_mul_right _ _ kmPerMetre_pos.ne']

theorem apply_maneuver (hisp : sc.isp ≠ 0) (segment : ThrottleSegment ℝ) (s : State ℝ) :
    (sc.maneuver s.mass segment).apply s = .ok ((Engine.ofSpacecraft sc).strike segment s) := by
  rw [Maneuver.apply, massRatio_maneuver hisp]
  simp only [maneuver, Vec3.spread?_toList]
  rfl

theorem time_maneuver (sc : Spacecraft ℝ) (mass : ℝ) (s : ThrottleSegment ℝ) (start : Epoch ℝ) :
    (sc.maneuver mass s).time start = s.midpoint - start.seconds := by
  simp only [Maneuver.time, Epoch.secondsSince, maneuver, ThrottleSegment.midpoint, Epoch.seconds]
  exact sub_mul ..

theorem exists_of_mem_maneuvers {segments : List (ThrottleSegment ℝ)} {mass : ℝ} {m : Maneuver ℝ}
    (h : m ∈ sc.maneuvers mass segments) : ∃ s ∈ segments, ∃ mass, m = sc.maneuver mass s := by
  induction segments generalizing mass with
  | nil => simp [maneuvers] at h
  | cons s segments ih =>
    rcases List.mem_cons.mp h with rfl | h
    · exact ⟨s, List.mem_cons_self, mass, rfl⟩
    · obtain ⟨s', hs', eq⟩ := ih h
      exact ⟨s', List.mem_cons_of_mem _ hs', eq⟩

/-- Maneuvers are before a clock if the middles of their segments are. -/
theorem time_lt_of_mem_maneuvers (start : Epoch ℝ) {clock : ℝ} {segments : List (ThrottleSegment ℝ)}
    (before : ∀ s ∈ segments, s.midpoint < clock) {mass : ℝ} {m : Maneuver ℝ}
    (h : m ∈ sc.maneuvers mass segments) : m.time start < clock - start.seconds := by
  obtain ⟨s, hs, _, rfl⟩ := exists_of_mem_maneuvers h
  rw [time_maneuver]
  exact sub_lt_sub_right (before s hs) _

/-- Maneuvers are in the order of the middles of their segments. -/
theorem pairwise_maneuvers (sc : Spacecraft ℝ) {segments : List (ThrottleSegment ℝ)}
    (h : segments.Pairwise fun a b => a.midpoint ≤ b.midpoint) (mass : ℝ) :
    (sc.maneuvers mass segments).Pairwise fun a b => a.epoch.mjd2000 ≤ b.epoch.mjd2000 := by
  induction segments generalizing mass with
  | nil => exact .nil
  | cons s segments ih =>
    obtain ⟨first, rest⟩ := List.pairwise_cons.mp h
    refine List.pairwise_cons.mpr ⟨fun m hm => ?_, ih rest _⟩
    obtain ⟨s', hs', _, rfl⟩ := exists_of_mem_maneuvers hm
    exact le_of_mul_le_mul_right (first s' hs') secondsPerDay_pos

end Spacecraft

/-! ### Flights and spans -/

namespace Flight

section Steps

variable {α : Type} [Scalar α] {coast : Coast α} {e : Engine α} {s : ThrottleSegment α}
  {f g : Flight α}

theorem coastTo_eq_ok_iff {clock : α} :
    f.coastTo coast clock = .ok g ↔
      ∃ m, coast f.state.toMotion (clock - f.clock) = .ok m ∧ g = ⟨⟨m, f.state.mass⟩, clock⟩ := by
  simp only [coastTo, bind_eq_ok_iff, pure_eq_ok_iff]

theorem impulsive_eq_ok_iff :
    f.impulsive coast e s = .ok g ↔
      ∃ m, coast f.state.toMotion (s.midpoint - f.clock) = .ok m ∧
        g = ⟨e.strike s ⟨m, f.state.mass⟩, s.midpoint⟩ := by
  simp only [impulsive, bind_eq_ok_iff, pure_eq_ok_iff, coastTo_eq_ok_iff]
  constructor
  · rintro ⟨_, ⟨m, hm, rfl⟩, rfl⟩
    exact ⟨m, hm, rfl⟩
  · rintro ⟨m, hm, rfl⟩
    exact ⟨_, ⟨m, hm, rfl⟩, rfl⟩

theorem clock_of_impulsive (h : f.impulsive coast e s = .ok g) : g.clock = s.midpoint := by
  obtain ⟨_, -, rfl⟩ := impulsive_eq_ok_iff.mp h
  rfl

theorem mass_of_impulsive (h : f.impulsive coast e s = .ok g) :
    g.state.mass = e.massAfter f.state.mass (e.impulse f.state.mass s) := by
  obtain ⟨_, -, rfl⟩ := impulsive_eq_ok_iff.mp h
  rfl

end Steps

variable {coast : Coast ℝ}

/-- Where every step ends at a clock of its segment, so does the run. -/
theorem clock_of_foldlM {step : Flight ℝ → ThrottleSegment ℝ → Except (Fault ℝ) (Flight ℝ)}
    {clock : ThrottleSegment ℝ → ℝ} (h : ∀ f s g, step f s = .ok g → g.clock = clock s)
    {segments : List (ThrottleSegment ℝ)} {f g : Flight ℝ} (flown : segments.foldlM step f = .ok g) :
    g.clock = lastClock clock f.clock segments := by
  induction segments generalizing f with
  | nil =>
    cases flown
    rfl
  | cons s rest ih =>
    obtain ⟨next, first, flown⟩ := bind_eq_ok_iff.mp flown
    rw [ih flown, h f s next first, lastClock_cons]

theorem clock_of_foldlM_impulsive {e : Engine ℝ} {segments : List (ThrottleSegment ℝ)}
    {f g : Flight ℝ} (h : segments.foldlM (impulsive coast e) f = .ok g) :
    g.clock = lastClock ThrottleSegment.midpoint f.clock segments :=
  clock_of_foldlM (fun _ _ _ => clock_of_impulsive) h

end Flight

namespace Propagator

variable {integrator : Integrator ℝ} {p : Propagator ℝ} {coast : Coast ℝ} {sc : Spacecraft ℝ}

/-- The step of a flight through a segment is a span that ends with the maneuver of the segment. -/
theorem coastSpan_maneuver (hi : integrator.CoastsLike p.config.integrator p.mu coast)
    (h₀ : ∀ m, coast m 0 = .ok m) (hisp : sc.isp ≠ 0) (start : ℝ) {s : ThrottleSegment ℝ}
    {f : Flight ℝ} (le : f.clock ≤ s.midpoint) (next : State ℝ) :
    let span : Span ℝ := ⟨f.clock - start, s.midpoint - start,
      some (sc.maneuver f.state.mass s)⟩
    (∃ first reached, p.coastSpan integrator none f.state span = .ok (first, reached) ∧
        maneuvered span reached = .ok next) ↔
      f.impulsive coast (.ofSpacecraft sc) s = .ok ⟨next, s.midpoint⟩ := by
  intro span
  have ordered : span.start ≤ span.final := sub_le_sub_right le start
  have reaches := coastSpan_reaches hi h₀ ordered f.state
  simp only [span, sub_sub_sub_cancel_right] at reaches
  have struck (m : Motion ℝ) : maneuvered span ⟨m, f.state.mass⟩ =
      .ok ((Engine.ofSpacecraft sc).strike s ⟨m, f.state.mass⟩) :=
    Spacecraft.apply_maneuver hisp s ⟨m, f.state.mass⟩
  rw [Flight.impulsive_eq_ok_iff]
  constructor
  · rintro ⟨first, reached, hs, hm⟩
    obtain ⟨m, coasted, rfl⟩ := (reaches reached).mp ⟨first, hs⟩
    rw [struck, Except.ok.injEq] at hm
    exact ⟨m, coasted, by rw [hm]⟩
  · rintro ⟨m, coasted, eq⟩
    obtain ⟨first, hs⟩ := (reaches _).mpr ⟨m, coasted, rfl⟩
    refine ⟨first, _, hs, ?_⟩
    rw [struck, (Flight.mk.inj eq).1]

/-- After the last maneuver a propagation is a coast to its end. -/
theorem flySpans_between_nil (hi : integrator.CoastsLike p.config.integrator p.mu coast)
    (start : Epoch ℝ) {clock : ℝ} {f : Flight ℝ} (hclock : f.clock < clock) (final : State ℝ) :
    (∃ rows t, p.flySpans integrator none f.state
        (Span.between start (clock - start.seconds) (f.clock - start.seconds) []) = .ok rows ∧
          rows.getLast? = some (t, final)) ↔
      ∃ h, f.coastTo coast clock = .ok h ∧ h.state = final := by
  let last : Span ℝ := ⟨f.clock - start.seconds, clock - start.seconds, none⟩
  have lt : last.start < last.final := sub_lt_sub_right hclock _
  have span := coastSpan_of_lt hi lt f.state
  simp only [last, sub_sub_sub_cancel_right] at span
  constructor
  · rintro ⟨_, t, flown, last⟩
    obtain ⟨first, reached, _, rest, hs, -, hrest, rfl⟩ := flySpans_cons_eq_ok_iff.mp flown
    obtain ⟨m, hm, rfl, -⟩ := (span ..).mp hs
    cases hrest
    simp only [List.append_nil, List.getLast?_cons_cons, List.getLast?_singleton,
      Option.some.injEq, Prod.mk.injEq] at last
    exact ⟨_, Flight.coastTo_eq_ok_iff.mpr ⟨m, hm, rfl⟩, last.2⟩
  · rintro ⟨h, hh, rfl⟩
    obtain ⟨m, hm, rfl⟩ := Flight.coastTo_eq_ok_iff.mp hh
    have hs := (span ..).mpr ⟨m, hm, rfl, rfl⟩
    exact ⟨_, _, flySpans_cons_eq_ok_iff.mpr ⟨_, _, _, [], hs, rfl, rfl, rfl⟩, rfl⟩

/-- By induction on the segments: a propagation until `clock` from where a flight is now ends in
the state that the flight reaches there, and one of them fails exactly if the other does. -/
theorem flySpans_maneuvers (hi : integrator.CoastsLike p.config.integrator p.mu coast)
    (h₀ : ∀ m, coast m 0 = .ok m) (hisp : sc.isp ≠ 0) (start : Epoch ℝ) {clock : ℝ}
    {segments : List (ThrottleSegment ℝ)}
    (sorted : segments.Pairwise fun a b => a.midpoint ≤ b.midpoint)
    (before : ∀ s ∈ segments, s.midpoint < clock) (f : Flight ℝ)
    (hstart : start.seconds ≤ f.clock) (hclock : f.clock < clock)
    (after : ∀ s ∈ segments, f.clock ≤ s.midpoint) (final : State ℝ) :
    (∃ rows t, p.flySpans integrator none f.state
        (Span.between start (clock - start.seconds) (f.clock - start.seconds)
          (sc.maneuvers f.state.mass segments)) = .ok rows ∧
          rows.getLast? = some (t, final)) ↔
      ∃ g h, segments.foldlM (Flight.impulsive coast (.ofSpacecraft sc)) f = .ok g ∧
        g.coastTo coast clock = .ok h ∧ h.state = final := by
  induction segments generalizing f with
  | nil =>
    rw [Spacecraft.maneuvers, flySpans_between_nil hi start hclock]
    simp [pure, Except.pure]
  | cons s segments ih =>
    have hs := after s List.mem_cons_self
    have hT := before s List.mem_cons_self
    have before_rest : ∀ s ∈ segments, s.midpoint < clock :=
      fun s hs => before s (List.mem_cons_of_mem _ hs)
    obtain ⟨first, rest⟩ := List.pairwise_cons.mp sorted
    have step (next : State ℝ) :=
      ih rest before_rest ⟨next, s.midpoint⟩ (hstart.trans hs) hT first
    have early (mass : ℝ) : ∀ m ∈ sc.maneuvers mass segments,
        m.time start < clock - start.seconds :=
      fun _ hm => Spacecraft.time_lt_of_mem_maneuvers start before_rest hm
    have inside : 0 ≤ s.midpoint - start.seconds := sub_nonneg.mpr (hstart.trans hs)
    have inside' : s.midpoint - start.seconds ≤ clock - start.seconds := sub_le_sub_right hT.le _
    have span := coastSpan_maneuver hi h₀ hisp start.seconds hs
    rw [Spacecraft.maneuvers_cons, Span.between_cons (by rwa [Spacecraft.time_maneuver])
      (by rwa [Spacecraft.time_maneuver]), Spacecraft.time_maneuver]
    simp only [List.foldlM_cons, bind_eq_ok_iff]
    constructor
    · rintro ⟨_, t, flown, last⟩
      obtain ⟨rows, reached, next, rest, hs, hm, hrest, rfl⟩ := flySpans_cons_eq_ok_iff.mp flown
      have struck := (span next).mp ⟨rows, reached, hs, hm⟩
      rw [← Flight.mass_of_impulsive struck] at hrest
      have rows_rest := flySpans_between_ne_nil hi (early _) (sub_lt_sub_right hT _) hrest
      rw [List.getLast?_append_of_ne_nil _ rows_rest] at last
      obtain ⟨g, h, hg, hh, eq⟩ := (step next).mp ⟨rest, t, hrest, last⟩
      exact ⟨g, h, ⟨_, struck, hg⟩, hh, eq⟩
    · rintro ⟨g, h, ⟨⟨next, _⟩, struck, hg⟩, hh, rfl⟩
      obtain rfl := Flight.clock_of_impulsive struck
      obtain ⟨rows, reached, hs, hm⟩ := (span next).mpr struck
      obtain ⟨rest, t, hrest, last⟩ := (step next).mpr ⟨g, h, hg, hh, rfl⟩
      have rows_rest := flySpans_between_ne_nil hi (early _) (sub_lt_sub_right hT _) hrest
      rw [Flight.mass_of_impulsive struck] at hrest
      refine ⟨rows ++ rest, t, flySpans_cons_eq_ok_iff.mpr ⟨_, _, _, _, hs, hm, hrest, rfl⟩, ?_⟩
      rw [List.getLast?_append_of_ne_nil _ rows_rest, last]

end Propagator

namespace Transfer

section Halves

variable {α : Type} [Scalar α] (t : Transfer α) (coast : Coast α)

/-- The forward half of the leg, up to its last impulse. -/
def forwardFlight : Except (Fault α) (Flight α) :=
  t.forwardSegments.foldlM (Flight.impulsive coast (.ofSpacecraft t.spacecraft)) t.departure

/-- The backward half of the leg, down to its first impulse. -/
def backwardFlight : Except (Fault α) (Flight α) :=
  t.backwardSegments.foldlM (Flight.impulsive coast (Engine.ofSpacecraft t.spacecraft).reversed)
    t.arrival

/-- The forward and the backward state at the matching point, of which the mismatch is the
difference. -/
def matchingStates : Except (Fault α) (State α × State α) := do
  let forward ← t.forwardFlight coast
  let backward ← t.backwardFlight coast
  let closed ← forward.coastTo coast backward.clock
  return (closed.state, backward.state)

theorem shootImpulsive_eq_matchingStates :
    t.shootImpulsive coast = do
      let (forward, backward) ← t.matchingStates coast
      return forward - backward := by
  simp [shootImpulsive, matchingStates, forwardFlight, backwardFlight, Flight.mismatch]

/-- The maneuvers that stand for the impulses of the forward half. -/
def forwardManeuvers : List (Maneuver α) :=
  t.spacecraft.maneuvers t.startState.mass t.forwardSegments

/-- The final state of a numerical propagation from the start of the leg to the matching point,
with the impulses of the forward half as maneuvers. -/
def reference (integrator : Integrator α) : Except (Fault α) (State α) := do
  let p ← Propagator.create t.mu t.config
  let duration := t.matchingClock - t.startEpoch.seconds
  p.propagate integrator t.startState t.startEpoch duration t.forwardManeuvers none >>=
    Trajectory.final

end Halves

variable {integrator : Integrator ℝ} {t : Transfer ℝ} {coast : Coast ℝ}

theorem clock_of_backwardFlight (hf : t.highFidelity = false) {g : Flight ℝ}
    (h : t.backwardFlight coast = .ok g) : g.clock = t.matchingClock := by
  have leaving : t.leavingClock = ThrottleSegment.midpoint := by
    funext s
    simp [leavingClock, hf]
  rw [← lastClock_backwardSegments, leaving]
  exact Flight.clock_of_foldlM_impulsive h

theorem matchingStates_eq_ok_iff (hf : t.highFidelity = false) {f b : State ℝ} :
    t.matchingStates coast = .ok (f, b) ↔
      (∃ g h, t.forwardFlight coast = .ok g ∧ g.coastTo coast t.matchingClock = .ok h ∧
        h.state = f) ∧ ∃ g, t.backwardFlight coast = .ok g ∧ g.state = b := by
  simp only [matchingStates, bind_eq_ok_iff, pure_eq_ok_iff, Prod.mk.injEq]
  constructor
  · rintro ⟨g, hg, g', hg', h, hh, rfl, rfl⟩
    rw [clock_of_backwardFlight hf hg'] at hh
    exact ⟨⟨g, h, hg, hh, rfl⟩, g', hg', rfl⟩
  · rintro ⟨⟨g, h, hg, hh, rfl⟩, g', hg', rfl⟩
    rw [← clock_of_backwardFlight hf hg'] at hh
    exact ⟨g, hg, g', hg', h, hh, rfl, rfl⟩

/-- Coasts of the leg take no time at all to stay where they are. -/
theorem coast_zero (hmu : 0 < t.mu) (m : Motion ℝ) : t.coast m 0 = .ok m := by
  simp [Transfer.coast, Kepler.propagate, Kepler.Orbit.coast, hmu]

theorem reference_eq_ok_iff (hmu : 0 < t.mu) (hn : 1 ≤ t.size) (hisp : t.spacecraft.isp ≠ 0)
    (hi : integrator.CoastsLike t.config.integrator t.mu t.coast)
    (sorted : t.forwardSegments.Pairwise fun a b => a.midpoint ≤ b.midpoint)
    (after : ∀ s ∈ t.forwardSegments, t.startEpoch.seconds ≤ s.midpoint)
    (before : ∀ s ∈ t.forwardSegments, s.midpoint < t.matchingClock) {f : State ℝ} :
    t.reference integrator = .ok f ↔
      ∃ g h, t.forwardFlight t.coast = .ok g ∧ g.coastTo t.coast t.matchingClock = .ok h ∧
        h.state = f := by
  have lt : t.startEpoch.seconds < t.matchingClock := by
    have nonempty : 0 < t.forwardSegments.length := by
      rw [length_forwardSegments, forwardCount]
      omega
    have first := List.getElem_mem nonempty
    exact (after _ first).trans_lt (before _ first)
  have spans := Propagator.flySpans_maneuvers (p := ⟨t.mu, t.config⟩) hi (coast_zero hmu) hisp
    t.startEpoch sorted before t.departure le_rfl lt after f
  rw [show t.departure.clock - t.startEpoch.seconds = 0 from sub_self _] at spans
  rw [reference, create_of_pos hmu]
  exact (Propagator.final_propagate_eq_ok_iff (sub_pos.mpr lt)
    (t.spacecraft.pairwise_maneuvers sorted _)).trans spans

theorem mismatch_of_impulsive (hf : t.highFidelity = false) :
    t.mismatch integrator = do
      let (forward, backward) ← t.matchingStates t.coast
      return forward - backward := by
  rw [mismatch, mismatchBy_of_impulsive hf, shootImpulsive_eq_matchingStates]

/-- Whatever is reached: the forward state at the matching point is the final state of the numerical
propagation, and neither of them is there without the other. Of a leg of one segment, the mismatch
is what the propagation misses the final state by. -/
theorem matchingStates_eq_reference (hf : t.highFidelity = false) (hmu : 0 < t.mu)
    (hn : 1 ≤ t.size) (hisp : t.spacecraft.isp ≠ 0)
    (hi : integrator.CoastsLike t.config.integrator t.mu t.coast)
    (sorted : t.forwardSegments.Pairwise fun a b => a.midpoint ≤ b.midpoint)
    (after : ∀ s ∈ t.forwardSegments, t.startEpoch.seconds ≤ s.midpoint)
    (before : ∀ s ∈ t.forwardSegments, s.midpoint < t.matchingClock) :
    (t.matchingStates t.coast).toOption = (do
      let forward ← (t.reference integrator).toOption
      let backward ← (t.backwardFlight t.coast).toOption
      return (forward, backward.state)) ∧
    (t.mismatch integrator = do
      let (forward, backward) ← t.matchingStates t.coast
      return forward - backward) ∧
    (t.size = 1 → (t.mismatch integrator).toOption = do
      let forward ← (t.reference integrator).toOption
      return forward - t.finalState) := by
  have states : (t.matchingStates t.coast).toOption = (do
      let forward ← (t.reference integrator).toOption
      let backward ← (t.backwardFlight t.coast).toOption
      return (forward, backward.state)) := by
    apply Option.ext
    rintro ⟨f, b⟩
    simp only [toOption_eq_some_iff, Option.bind_eq_bind, Option.bind_eq_some_iff, Option.pure_def,
      Option.some.injEq, Prod.mk.injEq, matchingStates_eq_ok_iff hf,
      ← reference_eq_ok_iff hmu hn hisp hi sorted after before]
    constructor
    · rintro ⟨hf, g, hg, rfl⟩
      exact ⟨f, hf, g, hg, rfl, rfl⟩
    · rintro ⟨_, hf, g, hg, rfl, rfl⟩
      exact ⟨hf, g, hg, rfl⟩
  refine ⟨states, mismatch_of_impulsive hf, fun one => ?_⟩
  have arrived : t.backwardFlight t.coast = .ok t.arrival := by
    have none : t.backwardSegments = [] := by
      rw [← List.length_eq_zero_iff, length_backwardSegments, backwardCount, one]
    rw [backwardFlight, none]
    rfl
  calc
    (t.mismatch integrator).toOption =
        (t.matchingStates t.coast).toOption.map fun (forward, backward) => forward - backward := by
      rw [mismatch_of_impulsive hf]
      cases t.matchingStates t.coast <;> rfl
    _ = _ := by
      rw [states, arrived]
      cases t.reference integrator <;> rfl

end Transfer

/-! ### Overlapping segments -/

namespace CircularOrbit

/-- Integrates coasts by their analytic solution. -/
noncomputable def coastIntegrator : Integrator ℝ where
  final _ _ start final s :=
    (Kepler.propagate .default 1 s.toMotion (final - start)).map fun m => ⟨m, s.mass⟩
  sample _ _ start final s _ :=
    (Kepler.propagate .default 1 s.toMotion (final - start)).map fun m =>
      [(start, s), (final, ⟨m, s.mass⟩)]

theorem coastsLike_coastIntegrator (config : IntegratorConfig ℝ) :
    coastIntegrator.CoastsLike config 1 (Kepler.propagate .default 1) := by
  intro s a b rows _
  simp only [coastIntegrator]
  cases Kepler.propagate .default 1 s.toMotion (b - a) <;> simp [Except.map, eq_comm]

/-- Two segments that overlap have their impulses together at the start of the leg. -/
noncomputable def overlappingTransfer : Transfer ℝ :=
  { transfer false with
    throttles := [⟨⟨-1⟩, ⟨1⟩, ⟨1, 0, 0⟩⟩, ⟨⟨-2.0⟩, ⟨2.0⟩, ⟨0, 1, 0⟩⟩, ⟨⟨0⟩, ⟨1⟩, ⟨0, 0, 1⟩⟩] }

theorem forwardSegments_overlappingTransfer : overlappingTransfer.forwardSegments =
    [⟨⟨-1⟩, ⟨1⟩, ⟨1, 0, 0⟩⟩, ⟨⟨-2.0⟩, ⟨2.0⟩, ⟨0, 1, 0⟩⟩] := by
  simp [Transfer.forwardSegments, Transfer.forwardCount, Transfer.size, overlappingTransfer]

theorem matchingClock_overlappingTransfer :
    overlappingTransfer.matchingClock = 1 / 2 * secondsPerDay := by
  have meet : overlappingTransfer.matchingClock =
      ThrottleSegment.midpoint ⟨⟨0⟩, ⟨1⟩, ⟨0, 0, 1⟩⟩ := by
    simp [Transfer.matchingClock, Transfer.forwardCount, Transfer.size, Transfer.leavingClock,
      overlappingTransfer, transfer]
  rw [meet, ThrottleSegment.midpoint]
  norm_num

theorem midpoint_overlappingTransfer :
    ∀ s ∈ overlappingTransfer.forwardSegments,
      s.midpoint = overlappingTransfer.startEpoch.seconds := by
  rw [forwardSegments_overlappingTransfer]
  intro s hs
  simp only [List.mem_cons, List.not_mem_nil, or_false] at hs
  obtain rfl | rfl := hs <;>
    norm_num [ThrottleSegment.midpoint, overlappingTransfer, transfer, Epoch.seconds]

theorem matchingStates_overlappingTransfer :
    (overlappingTransfer.matchingStates overlappingTransfer.coast).toOption = (do
      let forward ← (overlappingTransfer.reference coastIntegrator).toOption
      let backward ← (overlappingTransfer.backwardFlight overlappingTransfer.coast).toOption
      return (forward, backward.state)) := by
  have together := midpoint_overlappingTransfer
  have isp : overlappingTransfer.spacecraft.isp ≠ 0 := by norm_num [overlappingTransfer, transfer]
  have sorted : overlappingTransfer.forwardSegments.Pairwise fun a b => a.midpoint ≤ b.midpoint :=
    List.pairwise_of_forall_mem_list fun a ha b hb => by rw [together a ha, together b hb]
  have before (s : ThrottleSegment ℝ) (hs : s ∈ overlappingTransfer.forwardSegments) :
      s.midpoint < overlappingTransfer.matchingClock := by
    rw [together s hs, matchingClock_overlappingTransfer]
    norm_num [secondsPerDay_pos, overlappingTransfer, transfer, Epoch.seconds]
  exact (Transfer.matchingStates_eq_reference rfl one_pos (by decide) isp
    (coastsLike_coastIntegrator _) sorted (fun s hs => (together s hs).ge) before).1

end CircularOrbit

end LowThrust
