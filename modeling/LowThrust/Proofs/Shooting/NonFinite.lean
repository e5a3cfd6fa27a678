import LowThrust.Proofs.Binary64.NonFinite
import LowThrust.Proofs.Finiteness
import LowThrust.Proofs.Leg.Destination
import LowThrust.Proofs.Shooting.Reference

/-!
Boundary data that is not finite. Both halves of a leg are followed backward from a finite mismatch:
no coast and no impulse leads from what is not finite to what is.
-/

namespace LowThrust

open Scalar

variable {α : Type} [Scalar α]

/-- Only what is finite is taken to a finite motion. -/
def Coast.KeepsNonFinite (coast : Coast α) : Prop :=
  ∀ start dt m, coast start dt = .ok m → m.isFinite = true →
    start.isFinite = true ∧ isFinite dt = true

/-- State and clock are finite. -/
def Flight.isFinite (f : Flight α) : Bool := f.state.isFinite && Scalar.isFinite f.clock

theorem Flight.isFinite_iff (f : Flight α) :
    f.isFinite = true ↔ f.state.isFinite = true ∧ Scalar.isFinite f.clock = true := by
  simp [isFinite]

variable [Scalar.KeepsNonFinite α]

/-- Time that is none is finite, and so is every motion whose radial part is. -/
theorem Kepler.keepsNonFinite_propagate (config : KeplerConfig α) (mu : α) :
    Coast.KeepsNonFinite (propagate config mu) := by
  intro start dt m coasted hm
  rw [propagate, Orbit.coast] at coasted
  split at coasted
  · split at coasted
    · next still =>
      cases coasted
      exact ⟨hm, KeepsNonFinite.isFinite_of_beq_zero still⟩
    · split at coasted
      · next regular =>
        obtain ⟨⟨-, radial⟩, time⟩ : (_ ∧ Scalar.isFinite (Orbit.radial ⟨start, mu⟩) = true) ∧
            Scalar.isFinite dt = true := by
          simpa [Orbit.isRegular] using regular
        exact ⟨(Motion.isFinite_iff start).mpr (Vec3.isFinite_dot radial), time⟩
      · cases coasted
        rw [Motion.isFinite_iff, Motion.nan, Vec3.isFinite_nan] at hm
        cases hm.1
  · cases coasted

namespace Flight

variable {coast : Coast α} {e : Engine α} {s : ThrottleSegment α} {f g : Flight α}

theorem isFinite_of_coastTo (hc : coast.KeepsNonFinite) {clock : α}
    (h : f.coastTo coast clock = .ok g) (hg : g.state.isFinite = true) :
    f.isFinite = true ∧ Scalar.isFinite clock = true := by
  obtain ⟨m, coasted, rfl⟩ := coastTo_eq_ok_iff.mp h
  obtain ⟨motion, mass⟩ := (State.isFinite_iff _).mp hg
  obtain ⟨start, time⟩ := hc _ _ _ coasted motion
  obtain ⟨hclock, since⟩ := KeepsNonFinite.isFinite_sub time
  exact ⟨(isFinite_iff f).mpr ⟨(State.isFinite_iff _).mpr ⟨start, mass⟩, since⟩, hclock⟩

/-- An impulse adds to the velocity and scales the mass. -/
theorem isFinite_of_strike {s₀ : State α} (h : (e.strike s s₀).isFinite = true) :
    s₀.isFinite = true := by
  obtain ⟨motion, mass⟩ := (State.isFinite_iff _).mp h
  obtain ⟨position, velocity⟩ := (Motion.isFinite_iff _).mp motion
  refine (State.isFinite_iff _).mpr ⟨(Motion.isFinite_iff _).mpr ⟨position, ?_⟩, ?_⟩
  · exact (Vec3.isFinite_add velocity).1
  · exact (KeepsNonFinite.isFinite_mul mass).1

theorem isFinite_of_impulsive (hc : coast.KeepsNonFinite) (h : f.impulsive coast e s = .ok g)
    (hg : g.state.isFinite = true) : f.isFinite = true := by
  obtain ⟨m, coasted, rfl⟩ := impulsive_eq_ok_iff.mp h
  have arrived : f.coastTo coast s.midpoint = .ok ⟨⟨m, f.state.mass⟩, s.midpoint⟩ :=
    coastTo_eq_ok_iff.mpr ⟨m, coasted, rfl⟩
  exact (isFinite_of_coastTo hc arrived (isFinite_of_strike hg)).1

theorem isFinite_of_foldlM_impulsive (hc : coast.KeepsNonFinite)
    {segments : List (ThrottleSegment α)} (h : segments.foldlM (impulsive coast e) f = .ok g)
    (hg : g.isFinite = true) : f.isFinite = true := by
  induction segments generalizing f with
  | nil =>
    cases h
    exact hg
  | cons s rest ih =>
    rw [List.foldlM_cons] at h
    obtain ⟨next, struck, flown⟩ := bind_eq_ok_iff.mp h
    exact isFinite_of_impulsive hc struck ((isFinite_iff next).mp (ih flown)).1

theorem isFinite_of_mismatch (hc : coast.KeepsNonFinite) {m : State α}
    (h : f.mismatch coast g = .ok m) (hm : m.isFinite = true) :
    f.isFinite = true ∧ g.isFinite = true := by
  obtain ⟨met, coasted, missed⟩ := bind_eq_ok_iff.mp h
  obtain rfl := pure_eq_ok_iff.mp missed
  obtain ⟨forward, backward⟩ := State.isFinite_sub hm
  obtain ⟨hf, clock⟩ := isFinite_of_coastTo hc coasted forward
  exact ⟨hf, (isFinite_iff g).mpr ⟨backward, clock⟩⟩

end Flight

namespace Transfer

variable {integrator : Integrator α} {t : Transfer α}

/-- The numbers that the leg is to start from and to end in, and when. -/
def boundary {β : Type} (t : Transfer β) : List β :=
  t.startEpoch.mjd2000 :: t.startState.toList ++ t.finalEpoch.mjd2000 :: t.finalState.toList

omit [KeepsNonFinite α] in
/-- The two halves of which a mismatch is made. -/
theorem mismatch_eq_ok_iff_flights (impulsive : t.highFidelity = false) {m : State α} :
    t.mismatch integrator = .ok m ↔
      ∃ forward backward, t.forwardFlight t.coast = .ok forward ∧
        t.backwardFlight t.coast = .ok backward ∧ forward.mismatch t.coast backward = .ok m := by
  simp only [mismatch, mismatchBy_of_impulsive impulsive, shootImpulsive, bind_eq_ok_iff]
  constructor
  · rintro ⟨f, hf, g, hg, h⟩
    exact ⟨f, g, hf, hg, h⟩
  · rintro ⟨f, g, hf, hg, h⟩
    exact ⟨f, hf, g, hg, h⟩

/-- Both halves of a finite mismatch end in what is finite. -/
theorem isFinite_flights (impulsive : t.highFidelity = false) {m : State α}
    (h : t.mismatch integrator = .ok m) (hm : m.isFinite = true) :
    ∃ forward backward, t.forwardFlight t.coast = .ok forward ∧
      t.backwardFlight t.coast = .ok backward ∧ forward.isFinite = true ∧
        backward.isFinite = true := by
  obtain ⟨f, g, hf, hg, h⟩ := (mismatch_eq_ok_iff_flights impulsive).mp h
  obtain ⟨forward, backward⟩ :=
    Flight.isFinite_of_mismatch (Kepler.keepsNonFinite_propagate _ _) h hm
  exact ⟨f, g, hf, hg, forward, backward⟩

theorem isFinite_boundary (impulsive : t.highFidelity = false) {m : State α}
    (h : t.mismatch integrator = .ok m) (hm : m.isFinite = true) :
    ∀ x ∈ t.boundary, isFinite x = true := by
  obtain ⟨f, g, hf, hg, forward, backward⟩ := isFinite_flights impulsive h hm
  have hc := Kepler.keepsNonFinite_propagate t.config.kepler t.mu
  have departure := Flight.isFinite_of_foldlM_impulsive hc hf forward
  have arrival := Flight.isFinite_of_foldlM_impulsive hc hg backward
  obtain ⟨start, startClock⟩ := (Flight.isFinite_iff _).mp departure
  obtain ⟨final, finalClock⟩ := (Flight.isFinite_iff _).mp arrival
  have startEpoch := (KeepsNonFinite.isFinite_mul startClock).1
  have finalEpoch := (KeepsNonFinite.isFinite_mul finalClock).1
  intro x hx
  rw [boundary, List.cons_append, List.mem_cons, List.mem_append, List.mem_cons] at hx
  obtain rfl | hx | rfl | hx := hx
  · exact startEpoch
  · exact List.all_eq_true.mp start x hx
  · exact finalEpoch
  · exact List.all_eq_true.mp final x hx

end Transfer

section Evaluations

omit [Scalar α] [KeepsNonFinite α] in
/-- The tolerances are as many as there are numbers, each of them one of those given. -/
theorem spreadTolerance_eq_ok {count : Nat} {tol tols : List α}
    (h : spreadTolerance count tol = .ok tols) : tols.length = count ∧ ∀ a ∈ tols, a ∈ tol := by
  unfold spreadTolerance at h
  split at h
  · cases h
    refine ⟨List.length_replicate, fun a ha => ?_⟩
    rw [List.eq_of_mem_replicate ha]
    exact List.mem_singleton_self _
  · split at h
    · next same =>
      cases h
      exact ⟨same, fun a ha => ha⟩
    · cases h

namespace Leg

variable {integrator : Integrator α} {leg : Leg α} {t : Transfer α}

omit [KeepsNonFinite α] in
theorem mismatch_of_snapshot (h : leg.snapshot = .ok t) :
    leg.mismatch integrator = t.mismatch integrator := by
  rw [mismatch, h]
  rfl

omit [Scalar α] [KeepsNonFinite α] in
theorem highFidelity_of_snapshot (h : leg.snapshot = .ok t) :
    leg.highFidelity = t.highFidelity := by
  rw [eq_toLeg_of_snapshot h]
  rfl

/-- Each entry of the mismatch of a feasible leg is within a tolerance, and so finite if that is. -/
theorem isFinite_of_isFeasible {tol : List α} (finite : ∀ a ∈ tol, isFinite a = true)
    (h : leg.isFeasible integrator tol = .ok true) :
    ∃ m, leg.mismatch integrator = .ok m ∧ m.isFinite = true := by
  simp only [isFeasible, bind_eq_ok_iff, pure_eq_ok_iff] at h
  obtain ⟨m, found, tols, spread, within⟩ := h
  obtain ⟨count, given⟩ := spreadTolerance_eq_ok spread
  refine ⟨m, found, List.all_eq_true.mpr fun x hx => ?_⟩
  have firsts : (m.toList.zip tols).map Prod.fst = m.toList :=
    List.map_fst_zip (by rw [count, State.length_toList])
  rw [← firsts] at hx
  obtain ⟨⟨x, bound⟩, paired, rfl⟩ := List.mem_map.mp hx
  have below := List.all_eq_true.mp ((Bool.and_eq_true_iff.mp within.symm).1) _ paired
  exact KeepsNonFinite.isFinite_of_abs_le (of_decide_eq_true below)
    (finite bound (given bound (List.of_mem_zip paired).2))

end Leg

end Evaluations

/-! ### Legs in binary64 -/

namespace Leg

/-- A number at either end that is not finite is seen: the evaluation gives up, or an entry of the
mismatch is not finite either, and the leg is not taken for feasible. -/
theorem mismatch_of_boundary_not_finite {integrator : Integrator Float} {leg : Leg Float}
    {t : Transfer Float} (complete : leg.snapshot = .ok t) (impulsive : leg.highFidelity = false)
    (attracts : t.mu > 0.0) {x : Float} (hx : x ∈ t.boundary) (notFinite : isFinite x = false) :
    ((∃ cause, leg.mismatch integrator = .error (.propagation cause)) ∨
      ∃ m, leg.mismatch integrator = .ok m ∧ m.isFinite = false) ∧
    ∀ tol, (∀ a ∈ tol, isFinite a = true) → leg.isFeasible integrator tol ≠ .ok true := by
  rw [highFidelity_of_snapshot complete] at impulsive
  have masked {m : State Float} (h : leg.mismatch integrator = .ok m) : m.isFinite = false := by
    rw [mismatch_of_snapshot complete] at h
    refine Bool.eq_false_iff.mpr fun hm => ?_
    rw [Transfer.isFinite_boundary impulsive h hm x hx] at notFinite
    cases notFinite
  constructor
  · have faults := t.shootImpulsive_failsOnly fun m dt =>
      Kepler.propagate_failsOnly attracts t.config.kepler m dt
    cases h : leg.mismatch integrator with
    | error fault =>
      rw [mismatch_of_snapshot complete, Transfer.mismatch,
        Transfer.mismatchBy_of_impulsive impulsive] at h
      obtain ⟨cause, rfl⟩ := faults fault h
      exact .inl ⟨cause, rfl⟩
    | ok m => exact .inr ⟨m, rfl, masked h⟩
  · intro tol finite feasible
    obtain ⟨m, h, hm⟩ := isFinite_of_isFeasible finite feasible
    rw [masked h] at hm
    cases hm

end Leg

namespace Transfer

/-- A leg that starts with a velocity that is partly unknown. -/
def unknownDeparture : Transfer Float where
  config := .default
  startEpoch := ⟨0.0⟩
  startState := ⟨⟨⟨7000.0, 0.0, 0.0⟩, ⟨0.0, Scalar.nan, 0.0⟩⟩, 1000.0⟩
  throttles := [⟨⟨0.0⟩, ⟨1.0⟩, ⟨0.5, 0.0, 0.0⟩⟩]
  finalEpoch := ⟨1.0⟩
  finalState := ⟨⟨⟨7000.0, 0.0, 0.0⟩, ⟨0.0, 7.5, 0.0⟩⟩, 1000.0⟩
  spacecraft := ⟨1000.0, 0.3, 3000.0⟩
  mu := 398600.4418
  highFidelity := false

theorem mismatch_unknownDeparture :
    let leg := unknownDeparture.toLeg
    leg.snapshot = .ok unknownDeparture ∧ leg.highFidelity = false ∧
      unknownDeparture.mu > 0.0 ∧ Scalar.nan ∈ unknownDeparture.boundary ∧
        isFinite (Scalar.nan : Float) = false ∧
          leg.isFeasible DormandPrince.integrator [1e6] ≠ .ok true := by
  intro leg
  have complete : leg.snapshot = .ok unknownDeparture := rfl
  have attracts : unknownDeparture.mu > 0.0 := by decide
  have unknown : Scalar.nan ∈ unknownDeparture.boundary := by
    simp [boundary, unknownDeparture, State.toList, Vec3.toList]
  have notFinite : isFinite (Scalar.nan : Float) = false := KeepsNonFinite.isFinite_nan
  have seen := @Leg.mismatch_of_boundary_not_finite DormandPrince.integrator leg _ complete rfl
    attracts _ unknown notFinite
  exact ⟨complete, rfl, attracts, unknown, notFinite, seen.2 [1e6] (by decide)⟩

end Transfer

end LowThrust
