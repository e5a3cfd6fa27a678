import Mathlib
import LowThrust.Leg.Evaluation
import LowThrust.Proofs.Propagation.Maneuvers
import LowThrust.Proofs.Symmetry.Transport
import LowThrust.Throttle.Coverage

/-!
Legs and propagations at another date. Whatever is computed from epochs is computed from differences
of epochs, so that it stays when all of them are moved by as many days; only what names an epoch, a
row of a propagation or a fault, names the moved one.
-/

namespace LowThrust

/-! ### The same, so many days later -/

section Definitions

variable {α : Type} [Scalar α]

def Epoch.delayed (δ : α) (t : Epoch α) : Epoch α := ⟨t.mjd2000 + δ⟩

def ThrottleSegment.delayed (δ : α) (s : ThrottleSegment α) : ThrottleSegment α :=
  ⟨s.start.delayed δ, s.final.delayed δ, s.value⟩

/-- The clock of a flight counts seconds. -/
def Flight.delayed (δ : α) (f : Flight α) : Flight α := ⟨f.state, f.clock + δ * secondsPerDay⟩

def Transfer.delayed (δ : α) (t : Transfer α) : Transfer α :=
  { t with
    startEpoch := t.startEpoch.delayed δ
    throttles := t.throttles.map (ThrottleSegment.delayed δ)
    finalEpoch := t.finalEpoch.delayed δ }

def Leg.delayed (δ : α) (leg : Leg α) : Leg α :=
  { leg with
    startEpoch := leg.startEpoch.map (Epoch.delayed δ)
    throttles := leg.throttles.map (ThrottleSegment.delayed δ)
    finalEpoch := leg.finalEpoch.map (Epoch.delayed δ) }

def Maneuver.delayed (δ : α) (m : Maneuver α) : Maneuver α := { m with epoch := m.epoch.delayed δ }

def TrajectoryPoint.delayed (δ : α) (p : TrajectoryPoint α) : TrajectoryPoint α :=
  { p with epoch := p.epoch.delayed δ }

/-- The times of a span count from the start of the propagation. -/
def Span.delayed (δ : α) (span : Span α) : Span α :=
  { span with maneuver := span.maneuver.map (Maneuver.delayed δ) }

/-- Some causes name epochs. -/
def Misconfiguration.delayed (δ : α) : Misconfiguration α → Misconfiguration α
  | epochOrder start final => epochOrder (start.delayed δ) (final.delayed δ)
  | segmentReversed index start final => segmentReversed index (start.delayed δ) (final.delayed δ)
  | firstSegmentStart segment leg => firstSegmentStart (segment.delayed δ) (leg.delayed δ)
  | lastSegmentEnd segment leg => lastSegmentEnd (segment.delayed δ) (leg.delayed δ)
  | cause => cause

def Fault.delayed (δ : α) : Fault α → Fault α
  | configuration cause => configuration (cause.delayed δ)
  | fault => fault

end Definitions

variable (δ : ℝ)

/-! ### Differences of epochs -/

namespace Epoch

variable (s t : Epoch ℝ)

@[simp] theorem daysSince_delayed : (t.delayed δ).daysSince (s.delayed δ) = t.daysSince s :=
  add_sub_add_right_eq_sub _ _ δ

@[simp] theorem secondsSince_delayed :
    (t.delayed δ).secondsSince (s.delayed δ) = t.secondsSince s :=
  congrArg (· * secondsPerDay) (daysSince_delayed δ s t)

theorem seconds_delayed : (t.delayed δ).seconds = t.seconds + δ * secondsPerDay := add_mul _ _ _

theorem delayed_lt_delayed : s.delayed δ < t.delayed δ ↔ s < t := by
  change s.mjd2000 + δ < t.mjd2000 + δ ↔ s.mjd2000 < t.mjd2000
  exact add_lt_add_iff_right δ

end Epoch

namespace ThrottleSegment

variable (s : ThrottleSegment ℝ)

@[simp] theorem duration_delayed : (s.delayed δ).duration = s.duration :=
  Epoch.secondsSince_delayed δ s.start s.final

theorem seconds_start_delayed :
    (s.delayed δ).start.seconds = s.start.seconds + δ * secondsPerDay :=
  Epoch.seconds_delayed δ s.start

theorem seconds_final_delayed :
    (s.delayed δ).final.seconds = s.final.seconds + δ * secondsPerDay :=
  Epoch.seconds_delayed δ s.final

theorem midpoint_delayed : (s.delayed δ).midpoint = s.midpoint + δ * secondsPerDay := by
  simp only [midpoint, delayed, Epoch.delayed, Exact.literal_two]
  ring

end ThrottleSegment

/-! ### Flights -/

namespace Flight

variable (coast : Coast ℝ) (f g : Flight ℝ) (s : ThrottleSegment ℝ)

theorem coastTo_delayed (clock : ℝ) :
    (f.delayed δ).coastTo coast (clock + δ * secondsPerDay) =
      (f.coastTo coast clock).map (delayed δ) := by
  have elapsed : clock + δ * secondsPerDay - (f.delayed δ).clock = clock - f.clock :=
    add_sub_add_right_eq_sub _ _ _
  rw [coastTo, elapsed, coastTo, delayed]
  cases coast f.state.toMotion (clock - f.clock) <;> rfl

theorem impulsive_delayed (e : Engine ℝ) :
    (f.delayed δ).impulsive coast e (s.delayed δ) = (f.impulsive coast e s).map (delayed δ) := by
  have impulse (mass : ℝ) : e.impulse mass (s.delayed δ) = e.impulse mass s := by
    rw [Engine.impulse, ThrottleSegment.duration_delayed, Engine.impulse, ThrottleSegment.delayed]
  rw [impulsive, ThrottleSegment.midpoint_delayed, impulsive]
  refine bind_map (coastTo_delayed δ coast f s.midpoint) fun f => ?_
  simp only [impulse]
  rfl

variable (arc : ThrustArc ℝ) (thrust : ℝ)

/-- A coast to one time and an arc of thrust until another. -/
theorem coastTo_arc_delayed (a b dt : ℝ) (force : Vec3 ℝ) :
    (do
      let f ← (f.delayed δ).coastTo coast (a + δ * secondsPerDay)
      return ⟨← arc f.state dt force, b + δ * secondsPerDay⟩) =
    Except.map (delayed δ) (do
      let f ← f.coastTo coast a
      return ⟨← arc f.state dt force, b⟩) := by
  refine bind_map (coastTo_delayed δ coast f a) fun f => ?_
  have flown : arc (f.delayed δ).state dt force = (arc f.state dt force).map id :=
    (congrFun Except.map_id _).symm
  exact bind_map flown fun s => rfl

theorem throughArc_delayed :
    (f.delayed δ).throughArc coast arc thrust (s.delayed δ) =
      (f.throughArc coast arc thrust s).map (delayed δ) := by
  rw [throughArc, ThrottleSegment.seconds_start_delayed, ThrottleSegment.seconds_final_delayed,
    ThrottleSegment.duration_delayed]
  exact coastTo_arc_delayed δ coast f arc _ _ _ _

theorem backThroughArc_delayed :
    (f.delayed δ).backThroughArc coast arc thrust (s.delayed δ) =
      (f.backThroughArc coast arc thrust s).map (delayed δ) := by
  rw [backThroughArc, ThrottleSegment.seconds_start_delayed, ThrottleSegment.seconds_final_delayed,
    ThrottleSegment.duration_delayed]
  exact coastTo_arc_delayed δ coast f arc _ _ _ _

theorem mismatch_delayed :
    (f.delayed δ).mismatch coast (g.delayed δ) = (f.mismatch coast g).map id := by
  rw [mismatch, mismatch]
  exact bind_map (coastTo_delayed δ coast f g.clock) fun f => rfl

end Flight

/-! ### Whole legs -/

namespace Transfer

variable (t : Transfer ℝ)

theorem departure_delayed : (t.delayed δ).departure = t.departure.delayed δ :=
  congrArg (Flight.mk t.startState) (Epoch.seconds_delayed δ t.startEpoch)

theorem arrival_delayed : (t.delayed δ).arrival = t.arrival.delayed δ :=
  congrArg (Flight.mk t.finalState) (Epoch.seconds_delayed δ t.finalEpoch)

theorem shootImpulsive_delayed (coast : Coast ℝ) :
    (t.delayed δ).shootImpulsive coast = t.shootImpulsive coast :=
  (halves_map (fun f s => Flight.impulsive_delayed δ coast f s _)
    (fun f s => Flight.impulsive_delayed δ coast f s _) (Flight.mismatch_delayed δ coast) rfl
    (departure_delayed δ t) (arrival_delayed δ t)).trans (congrFun Except.map_id _)

theorem shootHighFidelity_delayed (coast : Coast ℝ) (arc : ThrustArc ℝ) :
    (t.delayed δ).shootHighFidelity coast arc = t.shootHighFidelity coast arc :=
  (halves_map (fun f s => Flight.throughArc_delayed δ coast f s arc _)
    (fun f s => Flight.backThroughArc_delayed δ coast f s arc _)
    (Flight.mismatch_delayed δ coast) rfl
    (departure_delayed δ t) (arrival_delayed δ t)).trans (congrFun Except.map_id _)

theorem mismatch_delayed (integrator : Integrator ℝ) :
    (t.delayed δ).mismatch integrator = t.mismatch integrator := by
  simp only [mismatch, mismatchBy, shootImpulsive_delayed, shootHighFidelity_delayed]
  rfl

end Transfer

namespace Leg

variable (leg : Leg ℝ)

theorem snapshot_delayed : (leg.delayed δ).snapshot = leg.snapshot.map (Transfer.delayed δ) := by
  obtain ⟨_, _ | _, _ | _, _, _ | _, _ | _, _ | _, _ | _, _⟩ := leg <;> rfl

theorem mismatch_delayed (integrator : Integrator ℝ) :
    (leg.delayed δ).mismatch integrator = leg.mismatch integrator := by
  rw [mismatch, snapshot_delayed, mismatch]
  cases leg.snapshot with
  | error => rfl
  | ok t => exact Transfer.mismatch_delayed δ t integrator

theorem mismatchInto_delayed (integrator : Integrator ℝ) :
    (leg.delayed δ).mismatchInto integrator = leg.mismatchInto integrator := by
  rw [mismatchInto, snapshot_delayed, mismatchInto]
  cases leg.snapshot with
  | error => rfl
  | ok t =>
    have flown := Transfer.mismatch_delayed δ t integrator
    simp only [Except.map, MonadExcept.ofExcept, pure_bind, flown]

theorem constraints_delayed : (leg.delayed δ).constraints = leg.constraints := by
  rw [constraints, delayed, List.map_map, constraints]
  rfl

theorem approximateDeltaV_delayed : (leg.delayed δ).approximateDeltaV = leg.approximateDeltaV := by
  have total (sc : Spacecraft ℝ) (segments : List (ThrottleSegment ℝ)) :
      LowThrust.approximateDeltaV sc (segments.map (ThrottleSegment.delayed δ)) =
        LowThrust.approximateDeltaV sc segments := by
    simp only [LowThrust.approximateDeltaV, List.foldlM_map, ThrottleSegment.duration_delayed]
    rfl
  obtain ⟨_, _, _, _, _, _, _ | sc, _, _⟩ := leg
  · rfl
  · exact total sc _

end Leg

/-! ### Coverage -/

namespace ThrottleSegment

variable (tol : ℝ)

theorem checkForward_delayed (k : Nat) (segments : List (ThrottleSegment ℝ)) :
    checkForward tol k (segments.map (delayed δ)) =
      (checkForward tol k segments).mapError (Fault.delayed δ) := by
  induction segments generalizing k with
  | nil => rfl
  | cons s rest ih =>
    have order : (s.delayed δ).final.mjd2000 < (s.delayed δ).start.mjd2000 - tol ↔
        s.final.mjd2000 < s.start.mjd2000 - tol := by
      change s.final.mjd2000 + δ < s.start.mjd2000 + δ - tol ↔ _
      rw [add_sub_right_comm, add_lt_add_iff_right]
    rw [List.map_cons, checkForward, checkForward]
    simp only [order]
    split
    · rfl
    · exact ih (k + 1)

theorem checkJoints_delayed (k : Nat) (segments : List (ThrottleSegment ℝ)) :
    checkJoints tol k (segments.map (delayed δ)) =
      (checkJoints tol k segments).mapError (Fault.delayed δ) := by
  induction segments generalizing k with
  | nil => rfl
  | cons s rest ih =>
    cases rest with
    | nil => rfl
    | cons t rest =>
      have gap : (t.delayed δ).start.daysSince (s.delayed δ).final = t.start.daysSince s.final :=
        Epoch.daysSince_delayed δ s.final t.start
      rw [List.map_cons, List.map_cons, checkJoints, checkJoints]
      simp only [gap]
      split
      · rfl
      · split
        · rfl
        · exact ih (k + 1)

theorem checkCoverage_delayed (segments : List (ThrottleSegment ℝ))
    (start final : Option (Epoch ℝ)) :
    checkCoverage (segments.map (delayed δ)) (start.map (Epoch.delayed δ))
        (final.map (Epoch.delayed δ)) tol =
      (checkCoverage segments start final tol).mapError (Fault.delayed δ) := by
  cases segments with
  | nil => rfl
  | cons first rest =>
    have forward := checkForward_delayed δ tol 0 (first :: rest)
    have joints := checkJoints_delayed δ tol 0 (first :: rest)
    have last : (rest.map (delayed δ)).getLastD (first.delayed δ) =
        (rest.getLastD first).delayed δ := by
      rw [List.getLastD_eq_getLast?, List.getLast?_map, List.getLastD_eq_getLast?]
      cases rest.getLast? <;> rfl
    have begins (t : Epoch ℝ) :
        (first.delayed δ).start.daysSince (t.delayed δ) = first.start.daysSince t :=
      Epoch.daysSince_delayed δ t first.start
    have ends (t : Epoch ℝ) :
        ((rest.getLastD first).delayed δ).final.daysSince (t.delayed δ) =
          (rest.getLastD first).final.daysSince t :=
      Epoch.daysSince_delayed δ t _
    rw [List.map_cons] at forward joints ⊢
    simp only [checkCoverage, forward, joints, last]
    -- An epoch of the leg is asked for only once the tests before it are passed.
    cases checkForward tol 0 (first :: rest) with
    | error => rfl
    | ok =>
      cases start with
      | none => rfl
      | some start =>
        simp only [Option.map_some, setEpoch, bind, Except.bind, Except.mapError, begins]
        split
        · rfl
        · cases final with
          | none => rfl
          | some final =>
            simp only [Option.map_some, ends]
            split <;> rfl

end ThrottleSegment

/-! ### Propagations -/

namespace Maneuver

theorem time_delayed (m : Maneuver ℝ) (start : Epoch ℝ) :
    (m.delayed δ).time (start.delayed δ) = m.time start :=
  Epoch.secondsSince_delayed δ start m.epoch

theorem sort_delayed (ms : List (Maneuver ℝ)) :
    sort (ms.map (delayed δ)) = (sort ms).map (delayed δ) := by
  have order (a b : Maneuver ℝ) : (!decide (b.epoch < a.epoch)) =
      !decide ((b.delayed δ).epoch < (a.delayed δ).epoch) :=
    congrArg (!·) (decide_eq_decide.mpr (Epoch.delayed_lt_delayed δ b.epoch a.epoch).symm)
  rw [sort_eq, sort_eq, List.map_mergeSort (s := fun a b => !decide (b.epoch < a.epoch))
    fun a _ b _ => order a b]

end Maneuver

theorem Span.between_delayed (start : Epoch ℝ) (duration current : ℝ) (ms : List (Maneuver ℝ)) :
    between (start.delayed δ) duration current (ms.map (Maneuver.delayed δ)) =
      (between start duration current ms).map (delayed δ) := by
  induction ms generalizing current with
  | nil => rfl
  | cons m ms ih =>
    rw [List.map_cons, between, between, Maneuver.time_delayed]
    simp only [ih]
    split <;> rfl

namespace Propagator

variable (p : Propagator ℝ) (integrator : Integrator ℝ) (outputStep : Option ℝ)

theorem flySpans_delayed (s : State ℝ) (spans : List (Span ℝ)) :
    p.flySpans integrator outputStep s (spans.map (Span.delayed δ)) =
      p.flySpans integrator outputStep s spans := by
  induction spans generalizing s with
  | nil => rfl
  | cons span spans ih =>
    have coast : p.coastSpan integrator outputStep s (span.delayed δ) =
      p.coastSpan integrator outputStep s span := rfl
    rw [List.map_cons, flySpans, coast, flySpans]
    obtain ⟨start, final, _ | m⟩ := span
    · simp only [Span.delayed, Option.map_none, ih]
    · have applied : (m.delayed δ).apply = m.apply := rfl
      simp only [Span.delayed, Option.map_some, ih, applied]

theorem propagate_delayed (s : State ℝ) (epoch : Epoch ℝ) (duration : ℝ)
    (maneuvers : List (Maneuver ℝ)) :
    p.propagate integrator s (epoch.delayed δ) duration (maneuvers.map (Maneuver.delayed δ))
        outputStep =
      (p.propagate integrator s epoch duration maneuvers outputStep).map
        (List.map (TrajectoryPoint.delayed δ)) := by
  have row (t : ℝ) (state : State ℝ) :
      TrajectoryPoint.mk ⟨(epoch.delayed δ).mjd2000 + t * daysPerSecond⟩ state =
        TrajectoryPoint.delayed δ ⟨⟨epoch.mjd2000 + t * daysPerSecond⟩, state⟩ := by
    rw [TrajectoryPoint.delayed, Epoch.delayed, Epoch.delayed, add_right_comm]
  rw [propagate, Maneuver.sort_delayed, propagate]
  simp only [Span.between_delayed, flySpans_delayed, row]
  split
  · cases p.flySpans integrator outputStep s
        (Span.between epoch duration 0.0 (Maneuver.sort maneuvers)) with
    | error => rfl
    | ok rows =>
      change Except.ok _ = Except.ok _
      rw [List.map_map]
      rfl
  · rfl

end Propagator

namespace Leg

/-- At another date a leg is evaluated as before: by the mismatch or the fault, also into a
destination, by the constraints and by the estimate of the velocity that is spent. Its segments pass
the test of coverage as before, or fail it for the same cause at the other date. A propagation has
the same fault or the same states, each at the other date. -/
theorem evaluation_delayed (integrator : Integrator ℝ) (leg : Leg ℝ) :
    (leg.delayed δ).mismatch integrator = leg.mismatch integrator ∧
      (leg.delayed δ).mismatchInto integrator = leg.mismatchInto integrator ∧
      (leg.delayed δ).constraints = leg.constraints ∧
      (leg.delayed δ).approximateDeltaV = leg.approximateDeltaV ∧
      (∀ tol, ThrottleSegment.checkCoverage (leg.delayed δ).throttles (leg.delayed δ).startEpoch
          (leg.delayed δ).finalEpoch tol =
        (ThrottleSegment.checkCoverage leg.throttles leg.startEpoch leg.finalEpoch tol).mapError
          (Fault.delayed δ)) ∧
      ∀ (p : Propagator ℝ) s epoch duration maneuvers outputStep,
        p.propagate integrator s (epoch.delayed δ) duration (maneuvers.map (Maneuver.delayed δ))
            outputStep =
          (p.propagate integrator s epoch duration maneuvers outputStep).map
            (List.map (TrajectoryPoint.delayed δ)) := by
  refine ⟨mismatch_delayed δ leg integrator, mismatchInto_delayed δ leg integrator,
    constraints_delayed δ leg, approximateDeltaV_delayed δ leg, fun tol => ?_,
    fun p s epoch duration maneuvers step => ?_⟩
  · exact ThrottleSegment.checkCoverage_delayed δ tol _ _ _
  · exact p.propagate_delayed δ integrator step s epoch duration maneuvers

end Leg

end LowThrust
