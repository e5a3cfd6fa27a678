import LowThrust.Proofs.Shooting.Propellant
import LowThrust.Proofs.Shooting.Reversal

/-!
The propellant that arcs of thrust use. Each half of a leg takes it in a constant flow, forward or
backward in time, and both together miss the final mass by what all segments use: the velocity that
is spent, by the reference mass and the exhaust velocity.
-/

namespace LowThrust

/-- Under a constant rate of change of mass, the mass at the end of a span follows from the length
of the span. -/
def Integrator.SolvesMass (integrator : Integrator ℝ) (config : IntegratorConfig ℝ) : Prop :=
  ∀ (f : State ℝ → State ℝ) (rate start final : ℝ) (s s' : State ℝ), (∀ y, (f y).mass = rate) →
    integrator.final config f start final s = .ok s' → s'.mass = s.mass + rate * (final - start)

/-- Arcs use up propellant in a flow of the thrust over the exhaust velocity. -/
def ThrustArc.UsesFlow (arc : ThrustArc ℝ) (exhaust : ℝ) : Prop :=
  ∀ s dt thrust s', arc s dt thrust = .ok s' → s'.mass = s.mass - thrust.norm / exhaust * dt

theorem Thrust.massRate_toList (thrust : Vec3 ℝ) (isp : ℝ) :
    massRate ⟨thrust.toList, isp⟩ = -(thrust.norm / (isp * standardGravity)) := by
  rw [massRate, Vec3.magnitude_toList, neg_div]

theorem Transfer.usesFlow_thrustArc {integrator : Integrator ℝ} {t : Transfer ℝ}
    (solves : integrator.SolvesMass t.config.integrator) :
    ThrustArc.UsesFlow (t.thrustArc integrator ⟨t.mu, t.config⟩)
      (t.spacecraft.isp * standardGravity) := by
  intro s dt thrust s' flown
  have axes : Thrust.axes ⟨thrust.toList, t.spacecraft.isp⟩ = .ok thrust := by simp [Thrust.axes]
  simp only [thrustArc, Propagator.thrustArc, Exact.literal_zero, Exact.beq_iff, axes, bind,
    Except.bind] at flown
  by_cases none : dt = 0
  · rw [if_pos none] at flown
    cases flown
    rw [none, mul_zero, sub_zero]
  · rw [if_neg none] at flown
    rw [solves _ (Thrust.massRate ⟨thrust.toList, t.spacecraft.isp⟩) _ _ _ _ (fun _ => rfl) flown,
      Thrust.massRate_toList]
    ring

/-- Over an arc of the thrust of a segment. -/
theorem ThrustArc.UsesFlow.mass_eq {arc : ThrustArc ℝ} {sc : Spacecraft ℝ}
    (uses : arc.UsesFlow (sc.isp * standardGravity)) (thrust : 0 ≤ sc.thrust)
    {s : ThrottleSegment ℝ} {dt : ℝ} {y y' : State ℝ}
    (flown : arc y dt (sc.thrust * s.value) = .ok y') :
    y'.mass = y.mass - sc.thrust * s.norm / (sc.isp * standardGravity) * dt := by
  rw [uses _ _ _ _ flown, Vec3.norm_smul_real, abs_of_nonneg thrust]
  rfl

namespace Flight

variable {coast : Coast ℝ} {arc : ThrustArc ℝ} {sc : Spacecraft ℝ} {s : ThrottleSegment ℝ}
  {f g : Flight ℝ}

theorem mass_of_throughArc (uses : arc.UsesFlow (sc.isp * standardGravity)) (thrust : 0 ≤ sc.thrust)
    (h : f.throughArc coast arc sc.thrust s = .ok g) :
    g.state.mass = f.state.mass + -sc.propellant s := by
  obtain ⟨met, coasted, h⟩ := bind_eq_ok_iff.mp h
  obtain ⟨reached, flown, h⟩ := bind_eq_ok_iff.mp h
  obtain rfl := pure_eq_ok_iff.mp h
  obtain ⟨m, -, rfl⟩ := coastTo_eq_ok_iff.mp coasted
  rw [uses.mass_eq thrust flown, Spacecraft.propellant]
  ring

/-- Backward in time, an arc gives back what it uses. -/
theorem mass_of_backThroughArc (uses : arc.UsesFlow (sc.isp * standardGravity))
    (thrust : 0 ≤ sc.thrust) (h : f.backThroughArc coast arc sc.thrust s = .ok g) :
    g.state.mass = f.state.mass + sc.propellant s := by
  obtain ⟨met, coasted, h⟩ := bind_eq_ok_iff.mp h
  obtain ⟨reached, flown, h⟩ := bind_eq_ok_iff.mp h
  obtain rfl := pure_eq_ok_iff.mp h
  obtain ⟨m, -, rfl⟩ := coastTo_eq_ok_iff.mp coasted
  rw [uses.mass_eq thrust flown, Spacecraft.propellant]
  ring

/-- What each step does to the mass adds up. -/
theorem mass_of_foldlM {step : Flight ℝ → ThrottleSegment ℝ → Except (Fault ℝ) (Flight ℝ)}
    {change : ThrottleSegment ℝ → ℝ}
    (h : ∀ f s g, step f s = .ok g → g.state.mass = f.state.mass + change s)
    {segments : List (ThrottleSegment ℝ)} (flown : segments.foldlM step f = .ok g) :
    g.state.mass = f.state.mass + (segments.map change).sum := by
  induction segments generalizing f with
  | nil =>
    cases flown
    simp
  | cons s rest ih =>
    obtain ⟨next, first, flown⟩ := bind_eq_ok_iff.mp flown
    rw [ih flown, h f s next first, List.map_cons, List.sum_cons, add_assoc]

theorem exists_foldlM {step : Flight ℝ → ThrottleSegment ℝ → Except (Fault ℝ) (Flight ℝ)}
    (h : ∀ f s, ∃ g, step f s = .ok g) (segments : List (ThrottleSegment ℝ)) (f : Flight ℝ) :
    ∃ g, segments.foldlM step f = .ok g := by
  induction segments generalizing f with
  | nil => exact ⟨f, rfl⟩
  | cons s rest ih =>
    obtain ⟨next, first⟩ := h f s
    obtain ⟨g, flown⟩ := ih next
    exact ⟨g, bind_eq_ok_iff.mpr ⟨next, first, flown⟩⟩

end Flight

/-! ### Whole legs -/

theorem checkedDiv_of_ne_zero {x y : ℝ} (hy : y ≠ 0) : checkedDiv x y = .ok (x / y) := by
  simp [checkedDiv, hy]

theorem Propagator.eq_of_create {mu : ℝ} {config : PropagationConfig ℝ} {p : Propagator ℝ}
    (h : create mu config = .ok p) : p = ⟨mu, config⟩ := by
  rw [create] at h
  split at h <;> cases h
  rfl

namespace Transfer

/-- The time at full throttle that the segments come to, in seconds. -/
noncomputable def burnTime (t : Transfer ℝ) : ℝ := (t.throttles.map fun s => s.duration * s.norm).sum

variable {integrator : Integrator ℝ} {t : Transfer ℝ} {coast : Coast ℝ}

theorem sum_propellant (t : Transfer ℝ) :
    (t.throttles.map t.spacecraft.propellant).sum =
      t.spacecraft.thrust / (t.spacecraft.isp * standardGravity) * t.burnTime := by
  rw [burnTime, ← List.sum_map_mul_left]
  congr 2
  funext s
  rw [Spacecraft.propellant]
  ring

/-- Wherever the halves meet, all segments have been flown. -/
theorem mass_of_halves {arc : ThrustArc ℝ} (uses : arc.UsesFlow (t.spacecraft.isp * standardGravity))
    (thrust : 0 ≤ t.spacecraft.thrust) {front back : List (ThrottleSegment ℝ)}
    (all : front ++ back = t.throttles) {f g : Flight ℝ}
    (hf : front.foldlM (Flight.throughArc coast arc t.spacecraft.thrust) t.departure = .ok f)
    (hg : back.reverse.foldlM (Flight.backThroughArc coast arc t.spacecraft.thrust) t.arrival =
      .ok g) :
    f.state.mass - g.state.mass = t.startState.mass - t.finalState.mass -
      t.spacecraft.thrust / (t.spacecraft.isp * standardGravity) * t.burnTime := by
  have forward : f.state.mass =
      t.startState.mass + (front.map fun s => -t.spacecraft.propellant s).sum :=
    Flight.mass_of_foldlM (fun _ s _ => Flight.mass_of_throughArc (s := s) uses thrust) hf
  have backward : g.state.mass =
      t.finalState.mass + (back.reverse.map t.spacecraft.propellant).sum :=
    Flight.mass_of_foldlM (fun _ s _ => Flight.mass_of_backThroughArc (s := s) uses thrust) hg
  rw [List.map_reverse, List.sum_reverse] at backward
  rw [forward, backward, sum_map_neg, ← sum_propellant, ← all, List.map_append, List.sum_append]
  ring

theorem approximateDeltaV_eq (mass : t.spacecraft.mass ≠ 0) :
    t.approximateDeltaV =
      .ok (t.burnTime * t.spacecraft.thrust / t.spacecraft.mass * (kmPerMetre : ℝ)) := by
  have total (segments : List (ThrottleSegment ℝ)) (sum : ℝ) :
      segments.foldlM (fun total s => do
        return total + (← checkedDiv (s.duration * s.norm * t.spacecraft.thrust) t.spacecraft.mass))
        sum = Except.ok (ε := Fault ℝ) (sum + (segments.map fun s => s.duration * s.norm).sum *
          t.spacecraft.thrust / t.spacecraft.mass) := by
    induction segments generalizing sum with
    | nil => simp [pure, Except.pure]
    | cons s rest ih =>
      simp only [List.foldlM_cons, checkedDiv_of_ne_zero mass, bind, Except.bind, pure,
        Except.pure] at ih ⊢
      rw [ih, List.map_cons, List.sum_cons]
      congr 1
      ring
  rw [approximateDeltaV, LowThrust.approximateDeltaV, total, Exact.literal_zero, zero_add]
  rfl

/-- The two halves of which a mismatch is made. -/
theorem exists_halves (highFidelity : t.highFidelity = true) {m : State ℝ}
    (h : t.mismatchBy integrator coast = .ok m) :
    ∃ f g,
      t.forwardSegments.foldlM (Flight.throughArc coast (t.thrustArc integrator ⟨t.mu, t.config⟩)
        t.spacecraft.thrust) t.departure = .ok f ∧
      t.backwardSegments.foldlM (Flight.backThroughArc coast
        (t.thrustArc integrator ⟨t.mu, t.config⟩) t.spacecraft.thrust) t.arrival = .ok g ∧
      f.mismatch coast g = .ok m := by
  rw [mismatchBy, if_pos highFidelity] at h
  obtain ⟨p, created, h⟩ := bind_eq_ok_iff.mp h
  obtain rfl := Propagator.eq_of_create created
  obtain ⟨f, hf, h⟩ := bind_eq_ok_iff.mp h
  obtain ⟨g, hg, h⟩ := bind_eq_ok_iff.mp h
  exact ⟨f, g, hf, hg, h⟩

/-- Of a leg that is flown under thrust, whatever its segments: the propellant that is missing is
that of a constant flow over all of them, and as much as the velocity of the diagnostic costs. It
would be the same if the halves met elsewhere. -/
theorem mass_mismatch_of_highFidelity (highFidelity : t.highFidelity = true)
    (thrust : 0 ≤ t.spacecraft.thrust) (isp : t.spacecraft.isp ≠ 0)
    (mass : t.spacecraft.mass ≠ 0) (solves : integrator.SolvesMass t.config.integrator) :
    ∃ dv, t.approximateDeltaV = .ok dv ∧ ∀ m, t.mismatchBy integrator coast = .ok m →
      m.mass = t.startState.mass - t.finalState.mass -
        t.spacecraft.thrust / (t.spacecraft.isp * standardGravity) *
          (t.throttles.map fun s => s.duration * s.norm).sum ∧
      m.mass = t.startState.mass - t.finalState.mass -
        t.spacecraft.mass * dv / t.spacecraft.exhaustVelocity ∧
      ∀ front back f g, front ++ back = t.throttles →
        front.foldlM (Flight.throughArc coast (t.thrustArc integrator ⟨t.mu, t.config⟩)
          t.spacecraft.thrust) t.departure = .ok f →
        back.reverse.foldlM (Flight.backThroughArc coast (t.thrustArc integrator ⟨t.mu, t.config⟩)
          t.spacecraft.thrust) t.arrival = .ok g →
        m.mass = f.state.mass - g.state.mass := by
  refine ⟨_, approximateDeltaV_eq mass, fun m hm => ?_⟩
  have uses := usesFlow_thrustArc solves
  have balance : m.mass = t.startState.mass - t.finalState.mass -
      t.spacecraft.thrust / (t.spacecraft.isp * standardGravity) * t.burnTime := by
    obtain ⟨f, g, hf, hg, hm⟩ := exists_halves highFidelity hm
    rw [Flight.mass_of_mismatch hm]
    exact mass_of_halves uses thrust (List.take_append_drop _ _) hf hg
  refine ⟨balance, balance.trans ?_, fun _ _ _ _ all hf hg => ?_⟩
  · have gravity := standardGravity_pos.ne'
    have metre := kmPerMetre_pos.ne'
    rw [Spacecraft.exhaustVelocity]
    field_simp
  · rw [balance, mass_of_halves uses thrust all hf hg]

end Transfer

/-! ### A circular orbit -/

namespace CircularOrbit

theorem solvesMass_splitIntegrator (config : IntegratorConfig ℝ) :
    splitIntegrator.SolvesMass config := by
  rintro f rate start final s _ constant ⟨⟩
  rw [mass_splitStep, constant]

/-- On the orbit every coast and every arc is flown. -/
theorem exists_mismatchBy {t : Transfer ℝ} (hmu : 0 < t.mu) (hf : t.highFidelity = true) :
    ∃ m, t.mismatchBy splitIntegrator (.ofFlow flow) = .ok m := by
  let arc := t.thrustArc splitIntegrator ⟨t.mu, t.config⟩
  have forth (f : Flight ℝ) (s : ThrottleSegment ℝ) :
      ∃ g, f.throughArc (.ofFlow flow) arc t.spacecraft.thrust s = .ok g := by
    exact ⟨⟨_, _⟩, (Flight.throughArc_eq_ok_iff ..).mpr ⟨thrustArc_splitIntegrator .., rfl⟩⟩
  have back (f : Flight ℝ) (s : ThrottleSegment ℝ) :
      ∃ g, f.backThroughArc (.ofFlow flow) arc t.spacecraft.thrust s = .ok g := by
    exact ⟨⟨_, _⟩, (Flight.backThroughArc_eq_ok_iff ..).mpr ⟨thrustArc_splitIntegrator .., rfl⟩⟩
  obtain ⟨f, hforth⟩ := Flight.exists_foldlM forth t.forwardSegments t.departure
  obtain ⟨g, hback⟩ := Flight.exists_foldlM back t.backwardSegments t.arrival
  rw [Transfer.mismatchBy_of_highFidelity hmu hf]
  exact ⟨_, bind_eq_ok_iff.mpr ⟨f, hforth, bind_eq_ok_iff.mpr ⟨g, hback, rfl⟩⟩⟩

theorem mass_mismatch_thrustingTransfer :
    ∃ m dv, (thrustingTransfer true).mismatchBy splitIntegrator (.ofFlow flow) = .ok m ∧
      (thrustingTransfer true).approximateDeltaV = .ok dv ∧
      m.mass = 1000 - 1000 -
        1000 * dv / (thrustingTransfer true).spacecraft.exhaustVelocity := by
  obtain ⟨thrust, isp, -, -, -⟩ := propelled_thrustingTransfer true
  have mass : (thrustingTransfer true).spacecraft.mass ≠ 0 := by
    norm_num [thrustingTransfer, transfer]
  obtain ⟨m, hm⟩ := exists_mismatchBy (t := thrustingTransfer true) one_pos rfl
  obtain ⟨dv, spent, missing⟩ :=
    @Transfer.mass_mismatch_of_highFidelity _ _ (.ofFlow flow) rfl thrust isp.ne' mass
      (solvesMass_splitIntegrator _)
  exact ⟨m, dv, hm, spent, (missing m hm).2.1⟩

end CircularOrbit

end LowThrust
