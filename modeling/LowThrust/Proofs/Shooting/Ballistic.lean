import Mathlib
import LowThrust.Leg.Evaluation
import LowThrust.Proofs.Exact.Real

/-!
Legs without thrust. Where coasting is a flow, both halves of a leg only move along it, whatever
the segments are, and the mismatch is that of one coast from each end to the matching point.
-/

namespace LowThrust

/-- Motion that depends on the elapsed time only: coasts one after the other add up. -/
structure IsFlow (K : Motion ℝ → ℝ → Motion ℝ) : Prop where
  zero : ∀ m, K m 0 = m
  add : ∀ m a b, K (K m a) b = K m (a + b)

def Coast.ofFlow (K : Motion ℝ → ℝ → Motion ℝ) : Coast ℝ := fun m dt => .ok (K m dt)

namespace IsFlow

variable {K : Motion ℝ → ℝ → Motion ℝ}

theorem eq_iff_of_clock (hK : IsFlow K) (m n : Motion ℝ) (clock start final : ℝ) :
    K m (clock - start) = K n (clock - final) ↔ K m (final - start) = n := by
  constructor
  · intro h
    calc
      K m (final - start) = K (K m (clock - start)) (final - clock) := by
        rw [hK.add]; congr 1; ring
      _ = K (K n (clock - final)) (final - clock) := by rw [h]
      _ = K n 0 := by rw [hK.add]; congr 1; ring
      _ = n := hK.zero n
  · rintro rfl
    rw [hK.add]
    congr 1
    ring

end IsFlow

namespace Flight

variable {K : Motion ℝ → ℝ → Motion ℝ}

/-- Where a flow takes a flight until a clock. -/
def carried (K : Motion ℝ → ℝ → Motion ℝ) (f : Flight ℝ) (clock : ℝ) : Flight ℝ :=
  ⟨⟨K f.state.toMotion (clock - f.clock), f.state.mass⟩, clock⟩

theorem carried_self (hK : IsFlow K) (f : Flight ℝ) : f.carried K f.clock = f := by
  simp [carried, hK.zero]

theorem carried_carried (hK : IsFlow K) (f : Flight ℝ) (a b : ℝ) :
    (f.carried K a).carried K b = f.carried K b := by
  simp only [carried, hK.add]
  congr 3
  ring

theorem coastTo_ofFlow (K : Motion ℝ → ℝ → Motion ℝ) (f : Flight ℝ) (clock : ℝ) :
    f.coastTo (.ofFlow K) clock = .ok (f.carried K clock) := rfl

/-- The clock after segments each of which ends at its own. -/
def lastClock (clock : ThrottleSegment ℝ → ℝ) (start : ℝ) (segments : List (ThrottleSegment ℝ)) :
    ℝ :=
  (segments.getLast?.map clock).getD start

theorem lastClock_cons (clock : ThrottleSegment ℝ → ℝ) (start : ℝ) (s : ThrottleSegment ℝ)
    (rest : List (ThrottleSegment ℝ)) :
    lastClock clock start (s :: rest) = lastClock clock (clock s) rest := by
  cases rest <;> rfl

/-- If every step follows the flow to the clock of its segment, the intervals telescope. -/
theorem foldlM_carried (hK : IsFlow K)
    {step : Flight ℝ → ThrottleSegment ℝ → Except (Fault ℝ) (Flight ℝ)}
    {clock : ThrottleSegment ℝ → ℝ} {segments : List (ThrottleSegment ℝ)}
    (h : ∀ s ∈ segments, ∀ f, step f s = .ok (f.carried K (clock s))) (f : Flight ℝ) :
    segments.foldlM step f = .ok (f.carried K (lastClock clock f.clock segments)) := by
  induction segments generalizing f with
  | nil => simp [lastClock, carried_self hK]; rfl
  | cons s rest ih =>
    rw [List.foldlM_cons, h s (by simp)]
    change rest.foldlM step (f.carried K (clock s)) = _
    rw [ih (fun t ht => h t (by simp [ht])), carried_carried hK, lastClock_cons]
    rfl

end Flight

/-! ### Segments without thrust -/

namespace Engine

theorem impulse_of_zero (e : Engine ℝ) (mass : ℝ) {s : ThrottleSegment ℝ} (h : s.value = .zero) :
    e.impulse mass s = ⟨0, 0, 0⟩ := by
  rw [impulse, h, Vec3.zero_real, Vec3.mul_zero_real]

theorem massAfter_zero (e : Engine ℝ) (mass : ℝ) : e.massAfter mass ⟨0, 0, 0⟩ = mass := by
  rw [massAfter, Vec3.norm_zero_real]
  simp

end Engine

namespace Thrust

theorem massRate_zero (isp : ℝ) : massRate ⟨Vec3.toList ⟨0, 0, 0⟩, isp⟩ = 0 := by
  simp [massRate, magnitude, Vec3.toList]

end Thrust

theorem State.thrustRate_zero (mu : ℝ) : State.thrustRate mu ⟨0, 0, 0⟩ 0 = State.coastRate mu := by
  funext s
  simp only [State.thrustRate, State.coastRate, Vec3.zero_div_real, Vec3.zero_mul_real,
    Vec3.add_zero_real, Exact.literal_zero]

/-- The integrator solves the equations of a coast by the flow and keeps the mass. -/
def Integrator.Follows (integrator : Integrator ℝ) (config : IntegratorConfig ℝ) (mu : ℝ)
    (K : Motion ℝ → ℝ → Motion ℝ) : Prop :=
  ∀ s dt, integrator.final config (State.coastRate mu) 0.0 dt s = .ok ⟨K s.toMotion dt, s.mass⟩

namespace Transfer

variable {K : Motion ℝ → ℝ → Motion ℝ} {integrator : Integrator ℝ} {t : Transfer ℝ}

theorem thrustArc_of_zero (hK : IsFlow K) (hi : integrator.Follows t.config.integrator t.mu K)
    (s : State ℝ) (dt : ℝ) :
    t.thrustArc integrator ⟨t.mu, t.config⟩ s dt ⟨0, 0, 0⟩ = .ok ⟨K s.toMotion dt, s.mass⟩ := by
  rw [thrustArc, Propagator.thrustArc]
  by_cases h : dt = 0
  · subst h
    simp [hK.zero]
  · have axes : Thrust.axes ⟨Vec3.toList (⟨0, 0, 0⟩ : Vec3 ℝ), t.spacecraft.isp⟩ = .ok ⟨0, 0, 0⟩ := by
      simp [Thrust.axes]
    simp only [Exact.literal_zero, Exact.beq_iff, h, if_false, axes, bind, Except.bind,
      Thrust.massRate_zero, State.thrustRate_zero]
    have solved := hi s dt
    rw [Exact.literal_zero] at solved
    exact solved

end Transfer

namespace Flight

variable {K : Motion ℝ → ℝ → Motion ℝ}

theorem impulsive_of_zero (e : Engine ℝ) {s : ThrottleSegment ℝ} (h : s.value = .zero)
    (f : Flight ℝ) : f.impulsive (.ofFlow K) e s = .ok (f.carried K s.midpoint) := by
  simp only [impulsive, coastTo_ofFlow, bind, Except.bind, Engine.impulse_of_zero _ _ h,
    Engine.massAfter_zero, Vec3.zero_mul_real, Vec3.add_zero_real]
  rfl

variable {arc : ThrustArc ℝ}

theorem throughArc_of_zero (hK : IsFlow K)
    (ha : ∀ s dt, arc s dt ⟨0, 0, 0⟩ = .ok ⟨K s.toMotion dt, s.mass⟩) (thrust : ℝ)
    {s : ThrottleSegment ℝ} (h : s.value = .zero) (f : Flight ℝ) :
    f.throughArc (.ofFlow K) arc thrust s = .ok (f.carried K s.final.seconds) := by
  have arrives : (f.carried K s.start.seconds).carried K s.final.seconds =
      f.carried K s.final.seconds := carried_carried hK f _ _
  simp only [throughArc, coastTo_ofFlow, bind, Except.bind, h, Vec3.zero_real, Vec3.mul_zero_real,
    ha]
  rw [← arrives]
  simp only [carried, ThrottleSegment.duration, Epoch.secondsSince, Epoch.seconds, sub_mul]
  rfl

theorem backThroughArc_of_zero (hK : IsFlow K)
    (ha : ∀ s dt, arc s dt ⟨0, 0, 0⟩ = .ok ⟨K s.toMotion dt, s.mass⟩) (thrust : ℝ)
    {s : ThrottleSegment ℝ} (h : s.value = .zero) (f : Flight ℝ) :
    f.backThroughArc (.ofFlow K) arc thrust s = .ok (f.carried K s.start.seconds) := by
  have arrives : (f.carried K s.final.seconds).carried K s.start.seconds =
      f.carried K s.start.seconds := carried_carried hK f _ _
  simp only [backThroughArc, coastTo_ofFlow, bind, Except.bind, h, Vec3.zero_real,
    Vec3.mul_zero_real, ha]
  rw [← arrives]
  simp only [carried, ThrottleSegment.duration, Epoch.secondsSince, Epoch.seconds, sub_mul,
    neg_sub]
  rfl

end Flight

/-! ### Whole legs -/

namespace Transfer

section Clocks

variable {α : Type} [Scalar α]

/-- When a segment of the backward half is left: at its middle, or at its start if it is flown
under thrust. -/
def leavingClock (t : Transfer α) (s : ThrottleSegment α) : α :=
  if t.highFidelity then s.start.seconds else s.midpoint

/-- When the halves meet: at the final epoch if no segment is flown backward, otherwise when the
first of those is left. -/
def matchingClock (t : Transfer α) : α :=
  match t.throttles[t.forwardCount]? with
  | some s => t.leavingClock s
  | none => t.finalEpoch.seconds

theorem matchingClock_of_size_le_one {t : Transfer α} (h : t.size ≤ 1) :
    t.matchingClock = t.finalEpoch.seconds := by
  have none : t.throttles[t.forwardCount]? = none := by
    rw [List.getElem?_eq_none_iff]
    simp only [forwardCount, size] at h ⊢
    omega
  rw [matchingClock, none]

theorem matchingClock_of_one_lt_size {t : Transfer α} (h : 1 < t.size) :
    ∃ s, t.throttles[t.forwardCount]? = some s ∧ t.matchingClock = t.leavingClock s := by
  have lt : t.forwardCount < t.throttles.length := by
    simp only [forwardCount, size] at h ⊢
    omega
  refine ⟨t.throttles[t.forwardCount], List.getElem?_eq_getElem lt, ?_⟩
  rw [matchingClock, List.getElem?_eq_getElem lt]

end Clocks

theorem mismatchBy_of_impulsive {α : Type} [Scalar α] {integrator : Integrator α} {t : Transfer α}
    (hf : t.highFidelity = false) (coast : Coast α) :
    t.mismatchBy integrator coast = t.shootImpulsive coast := by
  simp [mismatchBy, hf]

variable {K : Motion ℝ → ℝ → Motion ℝ} {integrator : Integrator ℝ} {t : Transfer ℝ}

theorem create_of_pos {mu : ℝ} (hmu : 0 < mu) (config : PropagationConfig ℝ) :
    Propagator.create mu config = .ok ⟨mu, config⟩ := by
  rw [Propagator.create, Exact.literal_zero, if_pos hmu]

theorem mismatchBy_of_highFidelity (hmu : 0 < t.mu) (hf : t.highFidelity = true)
    (coast : Coast ℝ) :
    t.mismatchBy integrator coast =
      t.shootHighFidelity coast (t.thrustArc integrator ⟨t.mu, t.config⟩) := by
  rw [mismatchBy, if_pos hf, create_of_pos hmu]
  rfl

/-- Of the segments flown backward, the first one of the leg is the last. -/
theorem lastClock_backwardSegments (t : Transfer ℝ) :
    Flight.lastClock t.leavingClock t.finalEpoch.seconds t.backwardSegments = t.matchingClock := by
  simp only [Flight.lastClock, backwardSegments, List.getLast?_reverse, List.head?_drop,
    matchingClock]
  cases t.throttles[t.forwardCount]? <;> rfl

/-- What a coast from each end leaves between them at the matching point. -/
noncomputable def coastMismatch (K : Motion ℝ → ℝ → Motion ℝ) (t : Transfer ℝ) : State ℝ :=
  ⟨K t.startState.toMotion (t.matchingClock - t.startEpoch.seconds), t.startState.mass⟩ -
    ⟨K t.finalState.toMotion (t.matchingClock - t.finalEpoch.seconds), t.finalState.mass⟩

theorem mismatch_carried (hK : IsFlow K) (t : Transfer ℝ) (forward : ℝ) :
    (t.departure.carried K forward).mismatch (.ofFlow K) (t.arrival.carried K t.matchingClock) =
      .ok (t.coastMismatch K) := by
  have met : (t.departure.carried K forward).carried K t.matchingClock =
      t.departure.carried K t.matchingClock := Flight.carried_carried hK _ _ _
  calc
    _ = Except.ok (((t.departure.carried K forward).carried K t.matchingClock).state -
          (t.arrival.carried K t.matchingClock).state) := rfl
    _ = .ok (t.coastMismatch K) := by rw [met]; rfl

/-- Two halves whose steps follow the flow, the backward ones until they leave their segments. -/
theorem halves_carried (hK : IsFlow K)
    {forwardStep backwardStep : Flight ℝ → ThrottleSegment ℝ → Except (Fault ℝ) (Flight ℝ)}
    (clock : ThrottleSegment ℝ → ℝ)
    (hf : ∀ s ∈ t.throttles, ∀ f, forwardStep f s = .ok (f.carried K (clock s)))
    (hb : ∀ s ∈ t.throttles, ∀ f, backwardStep f s = .ok (f.carried K (t.leavingClock s))) :
    (do
      let forward ← t.forwardSegments.foldlM forwardStep t.departure
      let backward ← t.backwardSegments.foldlM backwardStep t.arrival
      forward.mismatch (.ofFlow K) backward) = .ok (t.coastMismatch K) := by
  have forward : ∀ s ∈ t.forwardSegments, ∀ f, forwardStep f s = .ok (f.carried K (clock s)) :=
    fun s hs => hf s (List.mem_of_mem_take hs)
  have backward : ∀ s ∈ t.backwardSegments, ∀ f,
      backwardStep f s = .ok (f.carried K (t.leavingClock s)) :=
    fun s hs => hb s (List.mem_of_mem_drop (List.mem_reverse.mp hs))
  rw [Flight.foldlM_carried hK forward, Flight.foldlM_carried hK backward]
  simp only [bind, Except.bind]
  rw [show t.arrival.clock = t.finalEpoch.seconds from rfl, lastClock_backwardSegments]
  exact mismatch_carried hK t _

theorem mismatchBy_of_zero (hK : IsFlow K)
    (hi : integrator.Follows t.config.integrator t.mu K) (hmu : 0 < t.mu)
    (hz : ∀ s ∈ t.throttles, s.value = .zero) :
    t.mismatchBy integrator (.ofFlow K) = .ok (t.coastMismatch K) := by
  cases hf : t.highFidelity with
  | false =>
    rw [mismatchBy_of_impulsive hf]
    refine halves_carried hK ThrottleSegment.midpoint ?_ ?_
    · intro s hs f
      exact Flight.impulsive_of_zero _ (hz s hs) f
    · intro s hs f
      simp only [leavingClock, hf]
      exact Flight.impulsive_of_zero _ (hz s hs) f
  | true =>
    have arc := thrustArc_of_zero hK hi
    rw [mismatchBy_of_highFidelity hmu hf]
    refine halves_carried hK (fun s => s.final.seconds) ?_ ?_
    · intro s hs f
      exact Flight.throughArc_of_zero hK arc _ (hz s hs) f
    · intro s hs f
      simp only [leavingClock, hf]
      exact Flight.backThroughArc_of_zero hK arc _ (hz s hs) f

theorem coastMismatch_eq_zero_iff (hK : IsFlow K) (t : Transfer ℝ) :
    t.coastMismatch K = ⟨⟨.zero, .zero⟩, 0⟩ ↔
      K t.startState.toMotion (t.finalEpoch.seconds - t.startEpoch.seconds) =
        t.finalState.toMotion ∧ t.startState.mass = t.finalState.mass := by
  rw [← hK.eq_iff_of_clock _ _ t.matchingClock, coastMismatch, State.sub_eq_zero_real,
    State.mk.injEq]

/-- Without thrust the mismatch is that of two coasts to where the halves meet, and it vanishes
exactly if one coast leads from the start of the leg to its end. -/
theorem mismatch_of_zero_throttles (hK : IsFlow K)
    (hi : integrator.Follows t.config.integrator t.mu K) (hmu : 0 < t.mu)
    (hz : ∀ s ∈ t.throttles, s.value = .zero) :
    t.mismatchBy integrator (.ofFlow K) = .ok (t.coastMismatch K) ∧
      (t.size ≤ 1 → t.matchingClock = t.finalEpoch.seconds) ∧
      (1 < t.size → ∃ s, t.throttles[t.forwardCount]? = some s ∧
        t.matchingClock = t.leavingClock s) ∧
      (t.mismatchBy integrator (.ofFlow K) = .ok ⟨⟨.zero, .zero⟩, 0⟩ ↔
        K t.startState.toMotion (t.finalEpoch.seconds - t.startEpoch.seconds) =
          t.finalState.toMotion ∧ t.startState.mass = t.finalState.mass) := by
  rw [mismatchBy_of_zero hK hi hmu hz]
  refine ⟨rfl, matchingClock_of_size_le_one, matchingClock_of_one_lt_size, ?_⟩
  rw [Except.ok.injEq]
  exact coastMismatch_eq_zero_iff hK t

end Transfer

/-! ### A circular orbit -/

namespace CircularOrbit

noncomputable def rotate (angle : ℝ) (u : Vec3 ℝ) : Vec3 ℝ :=
  ⟨Real.cos angle * u.x - Real.sin angle * u.y, Real.sin angle * u.x + Real.cos angle * u.y, u.z⟩

theorem rotate_zero (u : Vec3 ℝ) : rotate 0 u = u := by
  simp [rotate]

theorem rotate_rotate (a b : ℝ) (u : Vec3 ℝ) : rotate b (rotate a u) = rotate (a + b) u := by
  simp only [rotate, Real.cos_add, Real.sin_add]
  apply Vec3.ext
  · ring
  · ring
  · rfl

/-- Motion about the third axis with an angular velocity of one, as on the orbit of radius one
about a unit gravitational parameter. -/
noncomputable def flow (m : Motion ℝ) (dt : ℝ) : Motion ℝ :=
  ⟨rotate dt m.position, rotate dt m.velocity⟩

theorem isFlow : IsFlow flow where
  zero m := by simp only [flow, rotate_zero]
  add m a b := by simp only [flow, rotate_rotate]

noncomputable def integrator : Integrator ℝ where
  final _ _ start final s := .ok ⟨flow s.toMotion (final - start), s.mass⟩
  sample _ _ _ _ _ _ := .ok []

theorem follows (config : IntegratorConfig ℝ) (mu : ℝ) : integrator.Follows config mu flow := by
  intro s dt
  simp only [integrator, Exact.literal_zero, sub_zero]

noncomputable def state : State ℝ := ⟨⟨⟨1, 0, 0⟩, ⟨0, 1, 0⟩⟩, 1000⟩

noncomputable def coastingSegment (start final : ℝ) : ThrottleSegment ℝ := ⟨⟨start⟩, ⟨final⟩, .zero⟩

/-- From a point of the orbit to the same one, through segments out of order, one of which runs
backward. -/
noncomputable def transfer (highFidelity : Bool) : Transfer ℝ where
  config := .default
  startEpoch := ⟨0⟩
  startState := state
  throttles := [coastingSegment 7 6, coastingSegment 1 2, coastingSegment 3 5]
  finalEpoch := ⟨8⟩
  finalState := state
  spacecraft := ⟨1000, 0.3, 2500⟩
  mu := 1
  highFidelity

theorem value_eq_zero (highFidelity : Bool) :
    ∀ s ∈ (transfer highFidelity).throttles, s.value = .zero := by
  intro s hs
  simp only [transfer, List.mem_cons, List.not_mem_nil, or_false] at hs
  obtain rfl | rfl | rfl := hs <;> rfl

theorem throttles_forwardCount (highFidelity : Bool) :
    (transfer highFidelity).throttles[(transfer highFidelity).forwardCount]? =
      some (coastingSegment 3 5) := by
  simp [transfer, Transfer.forwardCount, Transfer.size]

/-- The assumptions hold together on the orbit. The halves meet in the middle of the last segment
under impulses, and at its start under arcs of thrust. -/
theorem mismatch_transfer :
    ((transfer false).mismatchBy integrator (.ofFlow flow) =
        .ok ((transfer false).coastMismatch flow) ∧
      (transfer false).matchingClock = (coastingSegment 3 5).midpoint ∧
      ((transfer false).mismatchBy integrator (.ofFlow flow) = .ok ⟨⟨.zero, .zero⟩, 0⟩ ↔
        flow state.toMotion (Epoch.seconds ⟨8⟩ - Epoch.seconds ⟨0⟩) = state.toMotion ∧
          state.mass = state.mass)) ∧
    ((transfer true).mismatchBy integrator (.ofFlow flow) =
        .ok ((transfer true).coastMismatch flow) ∧
      (transfer true).matchingClock = (coastingSegment 3 5).start.seconds ∧
      ((transfer true).mismatchBy integrator (.ofFlow flow) = .ok ⟨⟨.zero, .zero⟩, 0⟩ ↔
        flow state.toMotion (Epoch.seconds ⟨8⟩ - Epoch.seconds ⟨0⟩) = state.toMotion ∧
          state.mass = state.mass)) := by
  have many (highFidelity : Bool) : 1 < (transfer highFidelity).size := by
    change 1 < 3
    decide
  constructor
  · obtain ⟨mismatch, -, meet, vanishes⟩ :=
      Transfer.mismatch_of_zero_throttles isFlow (follows _ _) one_pos (value_eq_zero false)
    obtain ⟨s, hs, clock⟩ := meet (many false)
    rw [throttles_forwardCount, Option.some.injEq] at hs
    subst hs
    exact ⟨mismatch, clock, vanishes⟩
  · obtain ⟨mismatch, -, meet, vanishes⟩ :=
      Transfer.mismatch_of_zero_throttles isFlow (follows _ _) one_pos (value_eq_zero true)
    obtain ⟨s, hs, clock⟩ := meet (many true)
    rw [throttles_forwardCount, Option.some.injEq] at hs
    subst hs
    exact ⟨mismatch, clock, vanishes⟩

end CircularOrbit

end LowThrust
