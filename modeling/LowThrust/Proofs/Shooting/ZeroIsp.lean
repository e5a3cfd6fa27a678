import LowThrust.Proofs.Shooting.NonFinite

/-!
Engines without exhaust velocity. The exponent of the rocket equation is then an infinity or no
number, and the mass after an impulse is finite only where it is used up altogether. As the halves
of a leg divide by zeros of opposite signs, this happens in one of them at most.
-/

namespace LowThrust

open Scalar

variable {α : Type} [Scalar α] [Scalar.Ieee α]

namespace Engine

variable {e : Engine α} {mass : α} {dv : Vec3 α}

theorem isFinite_massAfter_iff (he : (e.exhaust == 0.0) = true) (hm : isFinite mass = true) :
    isFinite (e.massAfter mass dv) = true ↔ 0.0 < dv.norm ∧ 0.0 < 1.0 / e.exhaust := by
  have infinite : isFinite (-dv.norm / e.exhaust) = false := Ieee.isFinite_div_zero he
  rw [massAfter]
  constructor
  · intro h
    have below := (Ieee.isFinite_exp_iff infinite).mp (KeepsNonFinite.isFinite_mul h).2
    exact (Ieee.neg_sqrt_div_zero_lt_iff he).mp below
  · intro h
    have below := (Ieee.neg_sqrt_div_zero_lt_iff he).mpr h
    have none := Ieee.mul_beq_zero hm (Ieee.exp_beq_zero infinite below)
    exact KeepsNonFinite.isFinite_of_beq_zero none

/-- A mass that is left finite is none. -/
theorem massAfter_beq_zero (he : (e.exhaust == 0.0) = true)
    (h : isFinite (e.massAfter mass dv) = true) : (e.massAfter mass dv == 0.0) = true := by
  have infinite : isFinite (-dv.norm / e.exhaust) = false := Ieee.isFinite_div_zero he
  rw [massAfter] at h ⊢
  obtain ⟨before, factor⟩ := KeepsNonFinite.isFinite_mul h
  have below := (Ieee.isFinite_exp_iff infinite).mp factor
  exact Ieee.mul_beq_zero before (Ieee.exp_beq_zero infinite below)

end Engine

/-- The first impulse of a half that ends in what is finite takes all mass away. -/
theorem Flight.firstImpulse {coast : Coast α} (hc : coast.KeepsNonFinite) {e : Engine α}
    (he : (e.exhaust == 0.0) = true) {s : ThrottleSegment α} {rest : List (ThrottleSegment α)}
    {f g : Flight α} (h : (s :: rest).foldlM (impulsive coast e) f = .ok g)
    (hg : g.isFinite = true) :
    0.0 < (e.impulse f.state.mass s).norm ∧ 0.0 < 1.0 / e.exhaust := by
  rw [List.foldlM_cons] at h
  obtain ⟨next, struck, flown⟩ := bind_eq_ok_iff.mp h
  have reached := ((isFinite_iff next).mp (isFinite_of_foldlM_impulsive hc flown hg)).1
  have start := ((isFinite_iff f).mp (isFinite_of_impulsive hc struck reached)).1
  have mass := ((State.isFinite_iff _).mp reached).2
  rw [mass_of_impulsive struck] at mass
  exact (Engine.isFinite_massAfter_iff he ((State.isFinite_iff _).mp start).2).mp mass

namespace Transfer

section Halves

omit [Scalar α] [Ieee α]

theorem halves_of_single {t : Transfer α} {s : ThrottleSegment α} (h : t.throttles = [s]) :
    t.forwardSegments = [s] ∧ t.backwardSegments = [] := by
  simp [forwardSegments, backwardSegments, forwardCount, size, h]

theorem exists_single {t : Transfer α} (some : t.throttles ≠ [])
    (none : t.backwardSegments = []) : ∃ s, t.throttles = [s] := by
  have pos : 0 < t.size := List.length_pos_iff.mpr some
  have half := t.length_backwardSegments
  rw [none, backwardCount, List.length_nil] at half
  exact List.length_eq_one_iff.mp (by rw [size] at pos half; omega)

theorem forwardSegments_ne_nil {t : Transfer α} (some : t.throttles ≠ []) :
    t.forwardSegments ≠ [] := by
  have pos : 0 < t.size := List.length_pos_iff.mpr some
  have half := t.length_forwardSegments
  rw [forwardCount] at half
  exact List.length_pos_iff.mp (by omega)

end Halves

variable {integrator : Integrator α} {t : Transfer α}

/-- If the mismatch is finite, no segment is flown backward: its impulse would divide by the other
zero. -/
theorem exists_of_isFinite_mismatch (impulsive : t.highFidelity = false)
    (he : ((Engine.ofSpacecraft t.spacecraft).exhaust == 0.0) = true) (some : t.throttles ≠ [])
    {m : State α} (h : t.mismatch integrator = .ok m) (hm : m.isFinite = true) :
    ∃ s, t.throttles = [s] ∧
      0.0 < ((Engine.ofSpacecraft t.spacecraft).impulse t.startState.mass s).norm ∧
        0.0 < 1.0 / (Engine.ofSpacecraft t.spacecraft).exhaust := by
  obtain ⟨f, g, hf, hg, forward, backward⟩ := isFinite_flights impulsive h hm
  have hc := Kepler.keepsNonFinite_propagate t.config.kepler t.mu
  -- With segments in both halves each would divide by a zero above, and they have opposite signs.
  obtain ⟨s, rest, first⟩ := List.exists_cons_of_ne_nil (forwardSegments_ne_nil some)
  rw [forwardFlight, first] at hf
  have departs := Flight.firstImpulse hc he hf forward
  cases last : t.backwardSegments with
  | nil =>
    obtain ⟨s', single⟩ := exists_single some last
    rw [(halves_of_single single).1] at first
    cases first
    exact ⟨s, single, departs⟩
  | cons s' rest' =>
    rw [backwardFlight, last] at hg
    have arrives := Flight.firstImpulse hc (Ieee.neg_beq_zero he) hg backward
    exact absurd arrives.2 (Ieee.not_zero_lt_reciprocal_neg he departs.2)

/-- A single impulse that takes all mass away leaves the final mass missing, which is finite. -/
theorem isFinite_mass_of_single (impulsive : t.highFidelity = false)
    (he : ((Engine.ofSpacecraft t.spacecraft).exhaust == 0.0) = true)
    (start : isFinite t.startState.mass = true) (final : isFinite t.finalState.mass = true)
    {s : ThrottleSegment α} (single : t.throttles = [s])
    (used : 0.0 < ((Engine.ofSpacecraft t.spacecraft).impulse t.startState.mass s).norm ∧
      0.0 < 1.0 / (Engine.ofSpacecraft t.spacecraft).exhaust)
    {m : State α} (h : t.mismatch integrator = .ok m) : isFinite m.mass = true := by
  obtain ⟨f, g, hf, hg, h⟩ := (mismatch_eq_ok_iff_flights impulsive).mp h
  rw [forwardFlight, (halves_of_single single).1, List.foldlM_cons] at hf
  rw [backwardFlight, (halves_of_single single).2] at hg
  cases hg
  obtain ⟨_, struck, flown⟩ := bind_eq_ok_iff.mp hf
  cases flown
  obtain ⟨met, coasted, missed⟩ := bind_eq_ok_iff.mp h
  obtain rfl := pure_eq_ok_iff.mp missed
  obtain ⟨motion, -, rfl⟩ := Flight.coastTo_eq_ok_iff.mp coasted
  have left := (Engine.isFinite_massAfter_iff he start).mpr used
  refine Ieee.isFinite_zero_sub ?_ final
  change (f.state.mass == 0.0) = true
  rw [Flight.mass_of_impulsive struck]
  exact Engine.massAfter_beq_zero he left

/-- The leg is a single impulse, and the exponent of the rocket equation is the infinity below
zero. -/
def usesUpMass (t : Transfer α) : Prop :=
  ∃ s, t.throttles = [s] ∧ 0.0 < 1.0 / t.spacecraft.isp ∧
    0.0 < ((Engine.ofSpacecraft t.spacecraft).impulse t.startState.mass s).norm

theorem isFinite_mismatch_iff (impulsive : t.highFidelity = false)
    (he : ((Engine.ofSpacecraft t.spacecraft).exhaust == 0.0) = true)
    (sign : 0.0 < 1.0 / (Engine.ofSpacecraft t.spacecraft).exhaust ↔
      0.0 < 1.0 / t.spacecraft.isp)
    (start : isFinite t.startState.mass = true) (final : isFinite t.finalState.mass = true)
    (some : t.throttles ≠ []) {m : State α} (h : t.mismatch integrator = .ok m) :
    m.isFinite = true ↔ t.usesUpMass ∧ m.toMotion.isFinite = true := by
  constructor
  · intro hm
    obtain ⟨s, single, above, below⟩ := exists_of_isFinite_mismatch impulsive he some h hm
    exact ⟨⟨s, single, sign.mp below, above⟩, ((State.isFinite_iff m).mp hm).1⟩
  · rintro ⟨⟨s, single, below, above⟩, motion⟩
    have mass := isFinite_mass_of_single impulsive he start final single ⟨above, sign.mpr below⟩ h
    exact (State.isFinite_iff m).mpr ⟨motion, mass⟩

/-- The numbers by which the leg is given. -/
def data {β : Type} (t : Transfer β) : List β :=
  t.boundary ++
    t.throttles.flatMap (fun s => s.start.mjd2000 :: s.final.mjd2000 :: s.value.toList) ++
    [t.spacecraft.mass, t.spacecraft.thrust, t.spacecraft.isp, t.mu]

end Transfer

/-! ### Binary64 arithmetic -/

namespace Binary64

theorem exhaust_beq_zero {isp : Float} (h : (isp == 0.0) = true) :
    (isp * 9.80665 == 0.0) = true :=
  beq_zero_mul h (by decide)

theorem zero_lt_reciprocal_exhaust_iff {isp : Float} (h : (isp == 0.0) = true) :
    0.0 < 1.0 / (isp * 9.80665) ↔ 0.0 < 1.0 / isp := by
  obtain ⟨negative, rfl⟩ := eq_of_beq_zero h
  cases negative <;> decide

/-- An exponential with the limits, by whatever means it is computed in between. -/
def exponential (x : Float) : Float :=
  if x.isFinite then Float.exp x else if x < 0.0 then 0.0 else x

theorem limits_exponential : ExpLimits exponential where
  nan := rfl
  infinity := rfl
  negInfinity := rfl

end Binary64

namespace Leg

/-- Without specific impulse the mismatch is not finite and the leg not taken for feasible, unless
there is a single segment only, which thrusts, and the zero is a positive one. The impulse then
takes all mass away, and what is left of the mismatch may be finite. -/
theorem mismatch_of_isp_zero {exp : Float → Float} (limits : Binary64.ExpLimits exp) :
    letI := Binary64.withExp exp
    ∀ {integrator : Integrator Float} {leg : Leg Float} {t : Transfer Float},
      leg.snapshot = .ok t → leg.highFidelity = false → (t.spacecraft.isp == 0.0) = true →
      isFinite t.startState.mass = true → isFinite t.finalState.mass = true → t.throttles ≠ [] →
      (∀ m, leg.mismatch integrator = .ok m →
        (m.isFinite = true ↔ t.usesUpMass ∧ m.toMotion.isFinite = true)) ∧
      (¬ t.usesUpMass → ∀ tol, (∀ a ∈ tol, isFinite a = true) →
        leg.isFeasible integrator tol ≠ .ok true) := by
  let _ := Binary64.withExp exp
  have ieee := Binary64.ieee_withExp limits
  intro integrator leg t complete impulsive none start final some
  rw [highFidelity_of_snapshot complete] at impulsive
  have seen (m : State Float) (h : leg.mismatch integrator = .ok m) :
      m.isFinite = true ↔ t.usesUpMass ∧ m.toMotion.isFinite = true := by
    rw [mismatch_of_snapshot complete] at h
    exact Transfer.isFinite_mismatch_iff impulsive (Binary64.exhaust_beq_zero none)
      (Binary64.zero_lt_reciprocal_exhaust_iff none) start final some h
  refine ⟨seen, fun enough tol finite feasible => ?_⟩
  obtain ⟨m, h, hm⟩ := isFinite_of_isFeasible finite feasible
  exact enough ((seen m h).mp hm).1

/-- A short leg of segments on a circular orbit, flown without specific impulse. -/
def spentLeg (throttles : List (ThrottleSegment Float)) : Transfer Float where
  config := .default
  startEpoch := ⟨0.0⟩
  startState := ⟨⟨⟨1.0, 0.0, 0.0⟩, ⟨0.0, 1.0, 0.0⟩⟩, 50.0⟩
  throttles
  finalEpoch := ⟨2.384185791015625e-7⟩
  finalState := ⟨⟨⟨1.0, 0.0, 0.0⟩, ⟨0.0, 1.0, 0.0⟩⟩, 50.0⟩
  spacecraft := ⟨50.0, 0.25, 0.0⟩
  mu := 1.0
  highFidelity := false

def spentSegment : ThrottleSegment Float := ⟨⟨0.0⟩, ⟨2.384185791015625e-7⟩, ⟨0.5, 0.0, 0.0⟩⟩

theorem isFeasible_two_spentSegments :
    letI := Binary64.withExp Binary64.exponential
    let t := spentLeg [spentSegment, spentSegment]
    t.toLeg.snapshot = .ok t ∧ t.highFidelity = false ∧ (t.spacecraft.isp == 0.0) = true ∧
      isFinite t.startState.mass = true ∧ isFinite t.finalState.mass = true ∧
        t.throttles ≠ [] ∧ t.toLeg.isFeasible DormandPrince.integrator [1e6] ≠ .ok true := by
  let _ := Binary64.withExp Binary64.exponential
  intro t
  have complete : t.toLeg.snapshot = .ok t := rfl
  have none : (t.spacecraft.isp == 0.0) = true := by decide
  have start : isFinite t.startState.mass = true := by decide
  have final : isFinite t.finalState.mass = true := by decide
  have some : t.throttles ≠ [] := List.cons_ne_nil _ _
  have seen := @mismatch_of_isp_zero _ Binary64.limits_exponential DormandPrince.integrator t.toLeg
    t complete rfl none start final some
  have enough : ¬ t.usesUpMass := by
    rintro ⟨s, single, -⟩
    cases single
  have tolerance : ∀ a ∈ [(1e6 : Float)], isFinite a = true := by decide
  exact ⟨complete, rfl, none, start, final, some, seen.2 enough [1e6] tolerance⟩

/-- The only segment takes all mass away, and the leg is feasible under a tolerance that is wider
than the final mass. -/
theorem isFeasible_one_spentSegment :
    letI := Binary64.withExp Binary64.exponential
    let t := spentLeg [spentSegment]
    t.toLeg.snapshot = .ok t ∧ t.highFidelity = false ∧ t.data.all isFinite = true ∧
      (0.0 < t.startState.mass ∧ 0.0 < t.finalState.mass) ∧
        (0.0 < t.spacecraft.thrust ∧ (t.spacecraft.isp == 0.0) = true) ∧
          (∃ s ∈ t.throttles, 0.0 < s.duration ∧ 0.0 < s.norm) ∧
            (∃ m, t.toLeg.mismatch DormandPrince.integrator = .ok m ∧ m.isFinite = true) ∧
              t.toLeg.isFeasible DormandPrince.integrator [1e6] = .ok true := by
  let _ := Binary64.withExp Binary64.exponential
  have ieee := Binary64.ieee_withExp Binary64.limits_exponential
  intro t
  have feasible : t.toLeg.isFeasible DormandPrince.integrator [1e6] = .ok true :=
    toOption_eq_some_iff.mp (by decide +kernel)
  have tolerance : ∀ a ∈ [(1e6 : Float)], isFinite a = true := by decide
  have thrusts : 0.0 < spentSegment.duration ∧ 0.0 < spentSegment.norm := by decide +kernel
  exact ⟨rfl, rfl, by decide, by decide, by decide, ⟨_, List.mem_singleton_self _, thrusts⟩,
    isFinite_of_isFeasible tolerance feasible, feasible⟩

end Leg

end LowThrust
