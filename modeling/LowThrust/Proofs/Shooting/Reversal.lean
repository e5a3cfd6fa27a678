import Mathlib
import LowThrust.Proofs.Leg.Step
import LowThrust.Proofs.Shooting.Ballistic

/-!
Shooting from both ends against a single flight. Where coasting is a flow and every arc of thrust
is undone by the same arc backward in time, the two halves of a leg meet exactly if a flight
through all of its segments ends in the final state.
-/

namespace LowThrust

/-- An arc that is flown can be flown back, under the same thrust for the negated time. -/
def ThrustArc.Reversible (arc : ThrustArc ℝ) : Prop :=
  ∀ thrust s s' dt, arc s dt thrust = .ok s' → arc s' (-dt) thrust = .ok s

theorem ThrustArc.Reversible.back_iff {arc : ThrustArc ℝ} (h : arc.Reversible) (thrust : Vec3 ℝ)
    (s s' : State ℝ) (dt : ℝ) : arc s' (-dt) thrust = .ok s ↔ arc s dt thrust = .ok s' := by
  constructor
  · intro back
    have forth := h thrust s' s (-dt) back
    rwa [neg_neg] at forth
  · exact h thrust s s' dt

/-- The integrator undoes what it does under a constant thrust when it integrates for the negated
time. -/
def Integrator.Reversible (integrator : Integrator ℝ) (config : IntegratorConfig ℝ) (mu isp : ℝ) :
    Prop :=
  ∀ (thrust : Vec3 ℝ) (s s' : State ℝ) (dt : ℝ), dt ≠ 0 →
    let rate := State.thrustRate mu thrust (Thrust.massRate ⟨thrust.toList, isp⟩)
    integrator.final config rate 0.0 dt s = .ok s' →
      integrator.final config rate 0.0 (-dt) s' = .ok s

theorem Transfer.reversible_thrustArc {integrator : Integrator ℝ} {t : Transfer ℝ}
    (h : integrator.Reversible t.config.integrator t.mu t.spacecraft.isp) :
    ThrustArc.Reversible (t.thrustArc integrator ⟨t.mu, t.config⟩) := by
  intro thrust s s' dt flown
  have axes : Thrust.axes ⟨thrust.toList, t.spacecraft.isp⟩ = .ok thrust := by simp [Thrust.axes]
  simp only [thrustArc, Propagator.thrustArc, Exact.literal_zero, Exact.beq_iff, neg_eq_zero, axes,
    bind, Except.bind] at flown ⊢
  by_cases none : dt = 0
  · rw [if_pos none, Except.ok.injEq] at flown ⊢
    exact flown.symm
  · rw [if_neg none] at flown ⊢
    have back := h thrust s s' dt none
    simp only [Exact.literal_zero] at back
    exact back flown

/-! ### Flights that meet -/

namespace Flight

variable {K : Motion ℝ → ℝ → Motion ℝ} {arc : ThrustArc ℝ}

/-- A coast leads from the one flight to the other, forward or backward in time. -/
def Meets (K : Motion ℝ → ℝ → Motion ℝ) (f g : Flight ℝ) : Prop := f.carried K g.clock = g

theorem meets_iff_state (f g : Flight ℝ) :
    f.Meets K g ↔ (f.carried K g.clock).state = g.state := by
  constructor
  · intro h
    rw [h]
  · intro h
    calc
      f.carried K g.clock = ⟨(f.carried K g.clock).state, g.clock⟩ := rfl
      _ = g := by rw [h]

theorem Meets.symm (hK : IsFlow K) {f g : Flight ℝ} (h : f.Meets K g) : g.Meets K f := by
  have back : (f.carried K g.clock).carried K f.clock = f := by
    rw [carried_carried hK, carried_self hK]
  rwa [h] at back

theorem throughArc_eq_ok_iff (thrust : ℝ) (s : ThrottleSegment ℝ) (f g : Flight ℝ) :
    f.throughArc (.ofFlow K) arc thrust s = .ok g ↔
      arc (f.carried K s.start.seconds).state s.duration (thrust * s.value) = .ok g.state ∧
        s.final.seconds = g.clock := by
  simp only [throughArc, coastTo_ofFlow, bind_eq_ok_iff, pure_eq_ok_iff, Except.ok.injEq,
    exists_eq_left']
  constructor
  · rintro ⟨_, flown, rfl⟩
    exact ⟨flown, rfl⟩
  · rintro ⟨flown, clock⟩
    exact ⟨g.state, flown, by rw [clock]⟩

theorem backThroughArc_eq_ok_iff (thrust : ℝ) (s : ThrottleSegment ℝ) (f g : Flight ℝ) :
    f.backThroughArc (.ofFlow K) arc thrust s = .ok g ↔
      arc (f.carried K s.final.seconds).state (-s.duration) (thrust * s.value) = .ok g.state ∧
        s.start.seconds = g.clock := by
  simp only [backThroughArc, coastTo_ofFlow, bind_eq_ok_iff, pure_eq_ok_iff, Except.ok.injEq,
    exists_eq_left']
  constructor
  · rintro ⟨_, flown, rfl⟩
    exact ⟨flown, rfl⟩
  · rintro ⟨flown, clock⟩
    exact ⟨g.state, flown, by rw [clock]⟩

/-- One segment may be flown forward by the one flight or backward by the other. -/
theorem throughArc_meets_iff (hK : IsFlow K) (ha : arc.Reversible) (thrust : ℝ)
    (s : ThrottleSegment ℝ) (f g : Flight ℝ) :
    (∃ f', f.throughArc (.ofFlow K) arc thrust s = .ok f' ∧ f'.Meets K g) ↔
      ∃ g', g.backThroughArc (.ofFlow K) arc thrust s = .ok g' ∧ f.Meets K g' := by
  have forth : (∃ f', f.throughArc (.ofFlow K) arc thrust s = .ok f' ∧ f'.Meets K g) ↔
      arc (f.carried K s.start.seconds).state s.duration (thrust * s.value) =
        .ok (g.carried K s.final.seconds).state := by
    constructor
    · rintro ⟨f', flown, meets⟩
      obtain ⟨flown, clock⟩ := (throughArc_eq_ok_iff ..).mp flown
      rw [flown, clock, (meets_iff_state ..).mp (meets.symm hK)]
    · intro flown
      have meets := (carried_carried hK g s.final.seconds g.clock).trans (carried_self hK g)
      exact ⟨g.carried K s.final.seconds, (throughArc_eq_ok_iff ..).mpr ⟨flown, rfl⟩, meets⟩
  have back : (∃ g', g.backThroughArc (.ofFlow K) arc thrust s = .ok g' ∧ f.Meets K g') ↔
      arc (g.carried K s.final.seconds).state (-s.duration) (thrust * s.value) =
        .ok (f.carried K s.start.seconds).state := by
    constructor
    · rintro ⟨g', flown, meets⟩
      obtain ⟨flown, clock⟩ := (backThroughArc_eq_ok_iff ..).mp flown
      rw [flown, clock, (meets_iff_state ..).mp meets]
    · intro flown
      exact ⟨f.carried K s.start.seconds, (backThroughArc_eq_ok_iff ..).mpr ⟨flown, rfl⟩, rfl⟩
  rw [forth, back, ha.back_iff]

/-- By induction on the segments, all of them may be flown by the one flight or by the other, which
takes them from the last one. -/
theorem foldlM_meets_iff (hK : IsFlow K) (ha : arc.Reversible) (thrust : ℝ)
    (segments : List (ThrottleSegment ℝ)) (f g : Flight ℝ) :
    (∃ f', segments.foldlM (throughArc (.ofFlow K) arc thrust) f = .ok f' ∧ f'.Meets K g) ↔
      ∃ g', segments.reverse.foldlM (backThroughArc (.ofFlow K) arc thrust) g = .ok g' ∧
        f.Meets K g' := by
  induction segments generalizing f with
  | nil => simp [pure, Except.pure]
  | cons s rest ih =>
    simp only [List.reverse_cons, List.foldlM_append, List.foldlM_cons, List.foldlM_nil,
      bind_pure, bind_eq_ok_iff]
    constructor
    · rintro ⟨f', ⟨h, hs, hrest⟩, meets⟩
      obtain ⟨g₁, back, meets⟩ := (ih h).mp ⟨f', hrest, meets⟩
      obtain ⟨g', last, meets⟩ := (throughArc_meets_iff hK ha thrust s f g₁).mp ⟨h, hs, meets⟩
      exact ⟨g', ⟨g₁, back, last⟩, meets⟩
    · rintro ⟨g', ⟨g₁, back, last⟩, meets⟩
      obtain ⟨h, hs, meets⟩ := (throughArc_meets_iff hK ha thrust s f g₁).mpr ⟨g', last, meets⟩
      obtain ⟨f', hrest, meets⟩ := (ih h).mpr ⟨g₁, back, meets⟩
      exact ⟨f', ⟨h, hs, hrest⟩, meets⟩

theorem mismatch_eq_zero_iff (f g : Flight ℝ) :
    f.mismatch (.ofFlow K) g = .ok ⟨⟨.zero, .zero⟩, 0⟩ ↔ f.Meets K g := by
  calc
    _ ↔ Except.ok (ε := Fault ℝ) ((f.carried K g.clock).state - g.state) = .ok _ := Iff.rfl
    _ ↔ _ := by rw [Except.ok.injEq, State.sub_eq_zero_real, meets_iff_state]

end Flight

namespace Transfer

variable {K : Motion ℝ → ℝ → Motion ℝ} {integrator : Integrator ℝ} {t : Transfer ℝ}

/-- The end of a flight from the start of the leg through all of its segments in order and on to
the final epoch. -/
def flight {α : Type} [Scalar α] (t : Transfer α) (coast : Coast α) (arc : ThrustArc α) :
    Except (Fault α) (State α) := do
  let f ← t.throttles.foldlM (Flight.throughArc coast arc t.spacecraft.thrust) t.departure
  let f ← f.coastTo coast t.finalEpoch.seconds
  return f.state

theorem flight_eq_ok_iff (t : Transfer ℝ) (arc : ThrustArc ℝ) :
    t.flight (.ofFlow K) arc = .ok t.finalState ↔
      ∃ f, t.throttles.foldlM (Flight.throughArc (.ofFlow K) arc t.spacecraft.thrust) t.departure =
        .ok f ∧ f.Meets K t.arrival := by
  simp only [flight, bind_eq_ok_iff, pure_eq_ok_iff, Flight.coastTo_ofFlow, Except.ok.injEq,
    exists_eq_left', Flight.meets_iff_state]
  exact exists_congr fun f => and_congr_right fun _ => eq_comm

theorem shootHighFidelity_eq_zero_iff (hK : IsFlow K) {arc : ThrustArc ℝ} (ha : arc.Reversible)
    (t : Transfer ℝ) :
    t.shootHighFidelity (.ofFlow K) arc = .ok ⟨⟨.zero, .zero⟩, 0⟩ ↔
      t.flight (.ofFlow K) arc = .ok t.finalState := by
  let forth := Flight.throughArc (.ofFlow K) arc t.spacecraft.thrust
  let back := Flight.backThroughArc (.ofFlow K) arc t.spacecraft.thrust
  have whole (f : Flight ℝ) : t.throttles.foldlM forth t.departure = .ok f ↔
      ∃ h, t.forwardSegments.foldlM forth t.departure = .ok h ∧
        t.backwardSegments.reverse.foldlM forth h = .ok f := by
    rw [← bind_eq_ok_iff, ← List.foldlM_append, forwardSegments_append_backwardSegments]
  calc
    _ ↔ ∃ h, t.forwardSegments.foldlM forth t.departure = .ok h ∧
          ∃ g, t.backwardSegments.foldlM back t.arrival = .ok g ∧ h.Meets K g := by
      simp only [shootHighFidelity, bind_eq_ok_iff, Flight.mismatch_eq_zero_iff, forth, back]
    _ ↔ ∃ h, t.forwardSegments.foldlM forth t.departure = .ok h ∧
          ∃ f, t.backwardSegments.reverse.foldlM forth h = .ok f ∧ f.Meets K t.arrival := by
      refine exists_congr fun h => and_congr_right fun _ => ?_
      rw [Flight.foldlM_meets_iff hK ha, List.reverse_reverse]
    _ ↔ ∃ f, t.throttles.foldlM forth t.departure = .ok f ∧ f.Meets K t.arrival := by
      simp only [whole]
      constructor
      · rintro ⟨h, first, f, rest, meets⟩
        exact ⟨f, ⟨h, first, rest⟩, meets⟩
      · rintro ⟨f, ⟨h, first, rest⟩, meets⟩
        exact ⟨h, first, f, rest, meets⟩
    _ ↔ _ := (flight_eq_ok_iff t arc).symm

/-- A leg that is flown under thrust has no mismatch exactly if one flight through it ends in its
final state. -/
theorem mismatch_eq_zero_iff_flight (hK : IsFlow K)
    (hi : integrator.Reversible t.config.integrator t.mu t.spacecraft.isp) (hmu : 0 < t.mu)
    (hf : t.highFidelity = true) :
    t.mismatchBy integrator (.ofFlow K) = .ok ⟨⟨.zero, .zero⟩, 0⟩ ↔
      t.flight (.ofFlow K) (t.thrustArc integrator ⟨t.mu, t.config⟩) = .ok t.finalState := by
  rw [mismatchBy_of_highFidelity hmu hf]
  exact shootHighFidelity_eq_zero_iff hK (reversible_thrustArc hi) t

end Transfer

/-! ### A circular orbit -/

namespace CircularOrbit

section Step

variable (rate : State ℝ → State ℝ) (dt : ℝ) (s : State ℝ)

/-- The impulse of what acts besides the gravity that keeps to the orbit. -/
noncomputable def kick : State ℝ :=
  ⟨⟨s.position, s.velocity + ((rate s).velocity - (State.coastRate 1 s).velocity) * dt⟩, s.mass⟩

/-- Motion on the orbit, while the mass changes. -/
noncomputable def drift : State ℝ := ⟨flow s.toMotion dt, s.mass + (rate s).mass * dt⟩

/-- Motion on the orbit between two halves of the impulse. -/
noncomputable def splitStep : State ℝ := kick rate (dt / 2.0) (drift rate dt (kick rate (dt / 2.0) s))

theorem kick_zero : kick rate 0 s = s := by
  simp only [kick, Vec3.mul_real, mul_zero, Vec3.add_zero_real]

theorem drift_zero : drift rate 0 s = s := by
  simp only [drift, isFlow.zero, mul_zero, add_zero]

theorem splitStep_zero : splitStep rate 0 s = s := by
  rw [splitStep, zero_div, kick_zero, drift_zero, kick_zero]

theorem mass_splitStep : (splitStep rate dt s).mass =
    s.mass + (rate (kick rate (dt / 2.0) s)).mass * dt := rfl

end Step

section Thrust

variable (thrust : Vec3 ℝ) (massRate dt : ℝ) (s : State ℝ)

/-- Under a constant thrust the impulse depends on the mass alone. -/
theorem kick_thrustRate :
    kick (State.thrustRate 1 thrust massRate) dt s =
      ⟨⟨s.position, s.velocity + thrust / s.mass * (kmPerMetre : ℝ) * dt⟩, s.mass⟩ := by
  have left (g a : Vec3 ℝ) : g + a - g = a := by
    apply Vec3.ext <;> exact add_sub_cancel_left _ _
  simp only [kick, State.thrustRate, State.coastRate, left]

theorem kick_neg_kick :
    kick (State.thrustRate 1 thrust massRate) (-dt) (kick (State.thrustRate 1 thrust massRate) dt s) =
      s := by
  have back (v a : Vec3 ℝ) : v + a * dt + a * (-dt) = v := by
    apply Vec3.ext <;> simp only [Vec3.add_real, Vec3.mul_real] <;> ring
  simp only [kick_thrustRate, back]

theorem drift_neg_drift :
    drift (State.thrustRate 1 thrust massRate) (-dt)
      (drift (State.thrustRate 1 thrust massRate) dt s) = s := by
  simp only [drift, State.thrustRate, isFlow.add, add_neg_cancel, isFlow.zero, mul_neg,
    add_neg_cancel_right]

theorem splitStep_neg_splitStep :
    splitStep (State.thrustRate 1 thrust massRate) (-dt)
      (splitStep (State.thrustRate 1 thrust massRate) dt s) = s := by
  simp only [splitStep, neg_div, kick_neg_kick, drift_neg_drift]

end Thrust

/-- Integrates in a single step. -/
noncomputable def splitIntegrator : Integrator ℝ where
  final _ rate start final s := .ok (splitStep rate (final - start) s)
  sample _ _ _ _ _ _ := .ok []

theorem reversible_splitIntegrator (config : IntegratorConfig ℝ) (isp : ℝ) :
    splitIntegrator.Reversible config 1 isp := by
  intro thrust s s' dt _
  simp only [splitIntegrator, Exact.literal_zero, sub_zero, Except.ok.injEq]
  rintro rfl
  exact splitStep_neg_splitStep ..

theorem thrustArc_splitIntegrator (t : Transfer ℝ) (p : Propagator ℝ) (s : State ℝ) (dt : ℝ)
    (thrust : Vec3 ℝ) :
    t.thrustArc splitIntegrator p s dt thrust = .ok (splitStep (State.thrustRate p.mu thrust
      (Thrust.massRate ⟨thrust.toList, t.spacecraft.isp⟩)) dt s) := by
  have axes : Thrust.axes ⟨thrust.toList, t.spacecraft.isp⟩ = .ok thrust := by simp [Thrust.axes]
  rw [Transfer.thrustArc, Propagator.thrustArc, axes]
  split
  · next still =>
    rw [Exact.beq_iff, Exact.literal_zero] at still
    rw [still, splitStep_zero]
  · change Except.ok (splitStep _ (dt - 0.0) s) = _
    rw [Exact.literal_zero, sub_zero]

/-- Where a flight is after the arc of a segment. -/
noncomputable def burned (t : Transfer ℝ) (f : Flight ℝ) (s : ThrottleSegment ℝ) : Flight ℝ :=
  let thrust : Vec3 ℝ := t.spacecraft.thrust * s.value
  ⟨splitStep (State.thrustRate t.mu thrust (Thrust.massRate ⟨thrust.toList, t.spacecraft.isp⟩))
    s.duration (f.carried flow s.start.seconds).state, s.final.seconds⟩

/-- The state after the arcs of all segments and a coast to the final epoch. -/
noncomputable def burnedOut (t : Transfer ℝ) : State ℝ :=
  ((t.throttles.foldl (burned t) t.departure).carried flow t.finalEpoch.seconds).state

theorem flight_splitIntegrator (t : Transfer ℝ) :
    t.flight (.ofFlow flow) (t.thrustArc splitIntegrator ⟨t.mu, t.config⟩) = .ok (burnedOut t) := by
  have step : Flight.throughArc (.ofFlow flow) (t.thrustArc splitIntegrator ⟨t.mu, t.config⟩)
      t.spacecraft.thrust = fun f s => pure (burned t f s) := by
    funext f s
    exact (Flight.throughArc_eq_ok_iff ..).mpr ⟨thrustArc_splitIntegrator .., rfl⟩
  rw [Transfer.flight, step, List.foldlM_pure]
  rfl

/-- Two arcs under full thrust, and between them a segment without thrust that runs backward. -/
noncomputable def pulsedTransfer : Transfer ℝ :=
  let t := { transfer true with
    throttles := [⟨⟨0⟩, ⟨1⟩, ⟨1, 0, 0⟩⟩, coastingSegment 1 0, ⟨⟨0⟩, ⟨1⟩, ⟨0, 1, 0⟩⟩] }
  { t with finalState := burnedOut t }

theorem massRate_neg {thrust : Vec3 ℝ} (pos : 0 < thrust.dot thrust) :
    Thrust.massRate ⟨thrust.toList, 2500⟩ < 0 := by
  have norm : 0 < thrust.norm := Real.sqrt_pos.mpr pos
  rw [Thrust.massRate, Vec3.magnitude_toList]
  exact div_neg_of_neg_of_pos (neg_lt_zero.mpr norm) (mul_pos (by norm_num) standardGravity_pos)

theorem mass_pulsedTransfer : pulsedTransfer.finalState.mass < pulsedTransfer.startState.mass := by
  let rate (throttle : Vec3 ℝ) : ℝ := Thrust.massRate ⟨((0.3 : ℝ) * throttle).toList, 2500⟩
  have total : pulsedTransfer.finalState.mass =
      1000 + rate ⟨1, 0, 0⟩ * ((1 - 0) * secondsPerDay) + rate .zero * ((0 - 1) * secondsPerDay) +
        rate ⟨0, 1, 0⟩ * ((1 - 0) * secondsPerDay) := rfl
  have unpowered : rate .zero = 0 := by
    simp only [rate, Vec3.zero_real, Vec3.mul_zero_real, Thrust.massRate_zero]
  have used (throttle : Vec3 ℝ) (full : throttle.dot throttle = 1) :
      rate throttle * ((1 - 0) * secondsPerDay) < 0 := by
    have pos : 0 < ((0.3 : ℝ) * throttle).dot ((0.3 : ℝ) * throttle) := by
      simp only [Vec3.dot_real, Vec3.smul_real] at full ⊢
      linarith
    refine mul_neg_of_neg_of_pos (massRate_neg pos) ?_
    rw [sub_zero, one_mul]
    exact secondsPerDay_pos
  have first := used ⟨1, 0, 0⟩ (by norm_num [Vec3.dot_real])
  have second := used ⟨0, 1, 0⟩ (by norm_num [Vec3.dot_real])
  rw [total, unpowered, zero_mul, add_zero]
  change _ < (1000 : ℝ)
  linarith

/-- The leg uses propellant, and the mismatch vanishes where the flight ends. -/
theorem mismatch_pulsedTransfer :
    splitIntegrator.Reversible .default 1 2500 ∧
      pulsedTransfer.finalState.mass < pulsedTransfer.startState.mass ∧
      pulsedTransfer.flight (.ofFlow flow) (pulsedTransfer.thrustArc splitIntegrator ⟨1, .default⟩) =
        .ok pulsedTransfer.finalState ∧
      pulsedTransfer.mismatchBy splitIntegrator (.ofFlow flow) = .ok ⟨⟨.zero, .zero⟩, 0⟩ := by
  have reversible := reversible_splitIntegrator .default 2500
  have ends : pulsedTransfer.flight (.ofFlow flow)
      (pulsedTransfer.thrustArc splitIntegrator ⟨1, .default⟩) = .ok pulsedTransfer.finalState :=
    flight_splitIntegrator pulsedTransfer
  exact ⟨reversible, mass_pulsedTransfer, ends,
    (Transfer.mismatch_eq_zero_iff_flight isFlow reversible one_pos rfl).mpr ends⟩

end CircularOrbit

end LowThrust
