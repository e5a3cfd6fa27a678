import LowThrust.Leg.Report
import LowThrust.Proofs.Leg.Destination
import LowThrust.Proofs.Shooting.NonFinite

/-!
How an evaluation fails. The faults of the library are reported in words; what an integrator refuses
to start with is not among them, and passes through evaluation and report alike.
-/

namespace LowThrust

variable {α : Type}

/-- The fault is one of the library's own. -/
def Fault.IsOwn (fault : Fault α) : Prop :=
  fault.IsMisconfiguration ∨ ∃ cause, fault = .propagation cause

theorem Fault.isOwn_iff [DecimalText α] (fault : Fault α) :
    fault.IsOwn ↔ ∃ message, fault.message? = some message := by
  cases fault <;> simp [IsOwn, IsMisconfiguration, message?]

theorem Fault.not_isOwn_refused (cause : IntegratorRefusal) :
    ¬ (Fault.refused cause : Fault α).IsOwn := by
  rintro (⟨_, ⟨⟩⟩ | ⟨_, ⟨⟩⟩)

variable [Scalar α]

/-- The integrator refuses to start exactly where a number is not finite. Otherwise it gives a
result, or a step gets too short, or there is no end of steps. -/
structure Integrator.Screens (integrator : Integrator α) (config : IntegratorConfig α) : Prop where
  refuses : ∀ rate a b s,
    integrator.final config rate a b s = .error (.refused .stateNotFinite) ↔ s.isFinite = false
  otherwise : ∀ rate a b s,
    FailsOnly (fun fault => (∃ cause, fault = .propagation cause) ∨
      fault = .refused .stateNotFinite ∨ fault = .refused .endless)
      (integrator.final config rate a b s)

namespace DormandPrince

/-- With settings that are in order, what is solved depends on the state it starts from. -/
theorem solve_of_valid {p : Problem} (method : p.config.method = dormandPrince)
    (maxStep : p.config.maxStep.any (· ≤ 0.0) = false) (tolerance : ¬ p.config.atol < 0.0)
    (s : State Float) :
    (s.isFinite = false → solve p s [] = .error (.refused .stateNotFinite)) ∧
      (s.isFinite = true →
        FailsOnly (fun fault => (∃ cause, fault = .propagation cause) ∨ fault = .refused .endless)
          (solve p s [])) := by
  rw [solve, if_neg (not_not.mpr method), if_neg (by simp [isIncreasing])]
  constructor
  · intro notFinite
    rw [if_pos (by simp [notFinite])]
  · intro finite
    rw [if_neg (by simp [finite]), if_neg (by simp [maxStep]), if_neg tolerance]
    dsimp only
    split
    · exact run_failsOnly _ _ _
    · exact .error (.inr rfl)

/-- The integrator that runs screens what it starts from, if its settings are in order. -/
theorem screens {config : IntegratorConfig Float} (method : config.method = dormandPrince)
    (maxStep : config.maxStep.any (· ≤ 0.0) = false) (tolerance : ¬ config.atol < 0.0) :
    integrator.Screens config := by
  have starts (rate : Rate) (a b : Float) (s : State Float) :=
    solve_of_valid (p := ⟨config, rate, a, b⟩) method maxStep tolerance s
  have reached (rate : Rate) (a b : Float) (s : State Float) (finite : s.isFinite = true) :
      FailsOnly (fun fault => (∃ cause, fault = .propagation cause) ∨ fault = .refused .endless)
        (integrator.final config rate a b s) :=
    .map ((starts rate a b s).2 finite)
  have refused (rate : Rate) (a b : Float) (s : State Float) (notFinite : s.isFinite = false) :
      integrator.final config rate a b s = .error (.refused .stateNotFinite) := by
    change (solve _ s []).map Progress.y = _
    rw [(starts rate a b s).1 notFinite]
    rfl
  constructor
  · intro rate a b s
    constructor
    · intro failed
      refine Bool.eq_false_iff.mpr fun finite => ?_
      obtain ⟨_, eq⟩ | eq := reached rate a b s finite _ failed <;> cases eq
    · exact refused rate a b s
  · intro rate a b s fault failed
    cases finite : s.isFinite with
    | true =>
      obtain own | ends := reached rate a b s finite fault failed
      · exact .inl own
      · exact .inr (.inr ends)
    | false =>
      rw [refused rate a b s finite] at failed
      cases failed
      exact .inr (.inl rfl)

end DormandPrince

/-! ### Arcs of a flight -/

/-- How a half of a leg goes through a segment: from which clock on, for how long, until which. -/
structure Passage (α : Type) where
  enter : ThrottleSegment α → α
  duration : ThrottleSegment α → α
  leave : ThrottleSegment α → α

namespace Passage

def forward : Passage α := ⟨fun s => s.start.seconds, fun s => s.duration, fun s => s.final.seconds⟩

def backward : Passage α :=
  ⟨fun s => s.final.seconds, fun s => -s.duration, fun s => s.start.seconds⟩

end Passage

namespace Flight

variable (coast : Coast α) (arc : ThrustArc α) (thrust : α) (p : Passage α)

/-- Coasts to where a segment is entered and flies it under thrust. -/
def through (f : Flight α) (s : ThrottleSegment α) : Except (Fault α) (Flight α) := do
  let f ← f.coastTo coast (p.enter s)
  return ⟨← arc f.state (p.duration s) (thrust * s.value), p.leave s⟩

theorem through_forward : through coast arc thrust .forward = throughArc coast arc thrust := rfl

theorem through_backward : through coast arc thrust .backward = backThroughArc coast arc thrust :=
  rfl

/-- An arc that takes time is started from a state: after the segments before it are flown, and
the gap to it. -/
def StartsArc (f : Flight α) (segments : List (ThrottleSegment α)) (s : State α) : Prop :=
  ∃ before segment after g h, segments = before ++ segment :: after ∧
    before.foldlM (through coast arc thrust p) f = .ok g ∧
      g.coastTo coast (p.enter segment) = .ok h ∧ (p.duration segment == 0.0) = false ∧
        h.state = s

variable {coast arc thrust p} {f : Flight α}

/-- Only the arc itself is refused: the coast to it fails for other reasons. -/
theorem through_eq_refused_iff
    (hc : ∀ m dt, FailsOnly (fun fault => ∃ cause, fault = .propagation cause) (coast m dt))
    (ha : ∀ s dt thrust, arc s dt thrust = .error (.refused .stateNotFinite) ↔
      (dt == 0.0) = false ∧ s.isFinite = false) {s : ThrottleSegment α} :
    f.through coast arc thrust p s = .error (.refused .stateNotFinite) ↔
      ∃ h, f.coastTo coast (p.enter s) = .ok h ∧ (p.duration s == 0.0) = false ∧
        h.state.isFinite = false := by
  rw [through, bind_eq_error_iff]
  constructor
  · rintro (failed | ⟨h, reached, failed⟩)
    · obtain ⟨cause, eq⟩ := coastTo_failsOnly hc f _ _ failed
      cases eq
    · rw [bind_eq_error_iff] at failed
      obtain failed | ⟨_, _, eq⟩ := failed
      · exact ⟨h, reached, (ha _ _ _).mp failed⟩
      · cases eq
  · rintro ⟨h, reached, refused⟩
    refine .inr ⟨h, reached, ?_⟩
    rw [bind_eq_error_iff]
    exact .inl ((ha _ _ _).mpr refused)

theorem foldlM_through_eq_refused_iff
    (hc : ∀ m dt, FailsOnly (fun fault => ∃ cause, fault = .propagation cause) (coast m dt))
    (ha : ∀ s dt thrust, arc s dt thrust = .error (.refused .stateNotFinite) ↔
      (dt == 0.0) = false ∧ s.isFinite = false) {segments : List (ThrottleSegment α)} :
    segments.foldlM (through coast arc thrust p) f = .error (.refused .stateNotFinite) ↔
      ∃ s, f.StartsArc coast arc thrust p segments s ∧ s.isFinite = false := by
  rw [foldlM_eq_error_iff]
  simp only [through_eq_refused_iff hc ha]
  constructor
  · rintro ⟨before, segment, after, g, split, flown, h, reached, takes, refused⟩
    exact ⟨h.state, ⟨before, segment, after, g, h, split, flown, reached, takes, rfl⟩, refused⟩
  · rintro ⟨_, ⟨before, segment, after, g, h, split, flown, reached, takes, rfl⟩, refused⟩
    exact ⟨before, segment, after, g, split, flown, h, reached, takes, refused⟩

end Flight

namespace Transfer

variable (integrator : Integrator α) (t : Transfer α)

/-- The half of the leg that goes through segments in one direction, under thrust. -/
def halfUnderThrust (p : Passage α) (start : Flight α) (segments : List (ThrottleSegment α)) :
    Except (Fault α) (Flight α) :=
  segments.foldlM (Flight.through t.coast (t.thrustArc integrator ⟨t.mu, t.config⟩)
    t.spacecraft.thrust p) start

/-- The evaluation starts an arc of thrust from a state: in the forward half, or in the backward
one after it. -/
def StartsArc (s : State α) : Prop :=
  let arc := t.thrustArc integrator ⟨t.mu, t.config⟩
  t.highFidelity = true ∧
    (t.departure.StartsArc t.coast arc t.spacecraft.thrust .forward t.forwardSegments s ∨
      (∃ f, t.halfUnderThrust integrator .forward t.departure t.forwardSegments = .ok f) ∧
        t.arrival.StartsArc t.coast arc t.spacecraft.thrust .backward t.backwardSegments s)

variable {integrator t}

theorem mismatch_of_thrust (hmu : t.mu > 0.0) (thrusts : t.highFidelity = true) :
    t.mismatch integrator = (do
      let f ← t.halfUnderThrust integrator .forward t.departure t.forwardSegments
      let g ← t.halfUnderThrust integrator .backward t.arrival t.backwardSegments
      f.mismatch t.coast g) := by
  rw [mismatch, mismatchBy, if_pos thrusts, Propagator.create, if_pos hmu]
  simp only [halfUnderThrust, Flight.through_forward, Flight.through_backward]
  rfl

theorem halfUnderThrust_eq_refused_iff (hmu : t.mu > 0.0)
    (screens : integrator.Screens t.config.integrator) {p : Passage α} {f : Flight α}
    {segments : List (ThrottleSegment α)} :
    t.halfUnderThrust integrator p f segments = .error (.refused .stateNotFinite) ↔
      ∃ s, f.StartsArc t.coast (t.thrustArc integrator ⟨t.mu, t.config⟩) t.spacecraft.thrust p
        segments s ∧ s.isFinite = false := by
  refine Flight.foldlM_through_eq_refused_iff (Kepler.propagate_failsOnly hmu t.config.kepler) ?_
  intro s dt thrust
  rw [thrustArc_eq]
  cases still : dt == 0.0 with
  | true => simp
  | false => simp [screens.refuses]

/-- The integrator is asked to start from what is not finite exactly if an arc of thrust is. -/
theorem mismatch_eq_refused_iff (hmu : t.mu > 0.0)
    (screens : integrator.Screens t.config.integrator) :
    t.mismatch integrator = .error (.refused .stateNotFinite) ↔
      ∃ s, t.StartsArc integrator s ∧ s.isFinite = false := by
  have hc := Kepler.propagate_failsOnly hmu t.config.kepler
  cases thrusts : t.highFidelity with
  | false =>
    rw [mismatch, mismatchBy_of_impulsive thrusts]
    constructor
    · intro failed
      obtain ⟨cause, eq⟩ := t.shootImpulsive_failsOnly hc _ failed
      cases eq
    · rintro ⟨s, ⟨thrusts', -⟩, -⟩
      rw [thrusts] at thrusts'
      cases thrusts'
  | true =>
    simp only [mismatch_of_thrust hmu thrusts, bind_eq_error_iff,
      halfUnderThrust_eq_refused_iff hmu screens]
    constructor
    · rintro (⟨s, starts, refused⟩ | ⟨f, flown, ⟨s, starts, refused⟩ | ⟨g, -, failed⟩⟩)
      · exact ⟨s, ⟨thrusts, .inl starts⟩, refused⟩
      · exact ⟨s, ⟨thrusts, .inr ⟨⟨f, flown⟩, starts⟩⟩, refused⟩
      · obtain ⟨cause, eq⟩ := Flight.mismatch_failsOnly hc f g _ failed
        cases eq
    · rintro ⟨s, ⟨-, starts | ⟨⟨f, flown⟩, starts⟩⟩, refused⟩
      · exact .inl ⟨s, starts, refused⟩
      · exact .inr ⟨f, flown, .inl ⟨s, starts, refused⟩⟩

end Transfer

namespace Leg

/-- An arc of thrust is started from a state that is not finite. -/
def ThrustsFromNonFinite (integrator : Integrator α) (leg : Leg α) : Prop :=
  ∃ t s, leg.snapshot = .ok t ∧ t.StartsArc integrator s ∧ s.isFinite = false

variable {integrator : Integrator α} {leg : Leg α}

theorem mismatch_eq_refused_iff (sound : leg.Sound)
    (screens : integrator.Screens leg.config.integrator) :
    leg.mismatch integrator = .error (.refused .stateNotFinite) ↔
      leg.ThrustsFromNonFinite integrator := by
  by_cases complete : leg.missing = []
  · obtain ⟨t, snapshot⟩ := leg.missing_eq_nil_iff.mp complete
    obtain rfl := eq_toLeg_of_snapshot snapshot
    rw [mismatch_of_snapshot snapshot,
      Transfer.mismatch_eq_refused_iff (sound.gravity t.mu rfl) screens]
    constructor
    · rintro ⟨s, starts, refused⟩
      exact ⟨t, s, snapshot, starts, refused⟩
    · rintro ⟨_, s, snapshot', starts, refused⟩
      obtain rfl := Except.ok.inj (snapshot.symm.trans snapshot')
      exact ⟨s, starts, refused⟩
  · have unset := snapshot_of_missing complete
    rw [mismatch, unset]
    constructor
    · intro failed
      cases failed
    · rintro ⟨t, _, snapshot, -⟩
      rw [unset] at snapshot
      cases snapshot

/-- The faults that an evaluation can end in. -/
theorem mismatch_failsOnly (sound : leg.Sound)
    (screens : integrator.Screens leg.config.integrator) :
    FailsOnly (fun fault => fault.IsOwn ∨ fault = .refused .stateNotFinite ∨
      fault = .refused .endless) (leg.mismatch integrator) := by
  by_cases complete : leg.missing = []
  · obtain ⟨t, snapshot⟩ := leg.missing_eq_nil_iff.mp complete
    obtain rfl := eq_toLeg_of_snapshot snapshot
    rw [mismatch_of_snapshot snapshot]
    refine t.mismatch_failsOnly (sound.gravity t.mu rfl) ?_ fun rate a b s => ?_
    · exact fun cause => .inl (.inr ⟨cause, rfl⟩)
    · refine (screens.otherwise rate a b s).mono ?_
      rintro fault (own | refused)
      · exact .inl (.inr own)
      · exact .inr refused
  · rw [mismatch, snapshot_of_missing complete]
    exact .error (.inl (.inl ⟨_, rfl⟩))

/-- Where the integrator comes to an end, only what it refuses is not a fault of the library. -/
theorem mismatch_ok_or_isOwn_iff (sound : leg.Sound)
    (screens : integrator.Screens leg.config.integrator)
    (ends : leg.mismatch integrator ≠ .error (.refused .endless)) :
    ((∃ m, leg.mismatch integrator = .ok m) ∨
        ∃ fault, leg.mismatch integrator = .error fault ∧ fault.IsOwn) ↔
      ¬ leg.ThrustsFromNonFinite integrator := by
  rw [← mismatch_eq_refused_iff sound screens]
  constructor
  · rintro (⟨m, found⟩ | ⟨fault, failed, own⟩) refused
    · rw [found] at refused
      cases refused
    · rw [failed, Except.error.injEq] at refused
      exact Fault.not_isOwn_refused _ (refused ▸ own)
  · intro accepted
    cases found : leg.mismatch integrator with
    | ok m => exact .inl ⟨m, rfl⟩
    | error fault =>
      obtain own | rfl | rfl := mismatch_failsOnly sound screens fault found
      · exact .inr ⟨fault, rfl, own⟩
      · exact absurd found accepted
      · exact absurd found ends

end Leg

/-! ### Reports -/

variable [DecimalText α]

theorem Leg.Report.mismatch_eq_error_iff {evaluated : Except (Fault α) (State α)}
    {fault : Fault α} :
    Report.mismatch evaluated = .error fault ↔ evaluated = .error fault ∧ ¬ fault.IsOwn := by
  rw [Fault.isOwn_iff]
  cases evaluated with
  | ok m => simp [Report.mismatch]
  | error fault' =>
    cases worded : fault'.message? with
    | none =>
      simp only [Report.mismatch, worded, Except.error.injEq]
      constructor
      · rintro rfl
        simp [worded]
      · exact And.left
    | some message =>
      simp only [Report.mismatch, worded, reduceCtorEq, Except.error.injEq, false_iff]
      rintro ⟨rfl, unworded⟩
      exact unworded ⟨message, worded⟩

namespace Leg

variable {integrator : Integrator α} {leg : Leg α}

/-- A report fails only where the mismatch does with a fault that is not reported in words. -/
theorem report_eq_error_iff {fault : Fault α} :
    leg.report integrator = .error fault ↔
      leg.mismatch integrator = .error fault ∧ ¬ fault.IsOwn := by
  rw [report, bind_eq_error_iff, Report.mismatch_eq_error_iff]
  constructor
  · rintro (failed | ⟨_, _, eq⟩)
    · exact failed
    · cases eq
  · exact .inl

/-- A report is given for whatever an evaluation ends in, except for what is refused. -/
theorem exists_report_iff (sound : leg.Sound) (screens : integrator.Screens leg.config.integrator)
    (ends : leg.mismatch integrator ≠ .error (.refused .endless)) :
    (∃ lines, leg.report integrator = .ok lines) ↔ ¬ leg.ThrustsFromNonFinite integrator := by
  rw [← mismatch_ok_or_isOwn_iff sound screens ends]
  constructor
  · rintro ⟨lines, given⟩
    cases found : leg.mismatch integrator with
    | ok m => exact .inl ⟨m, rfl⟩
    | error fault =>
      refine .inr ⟨fault, rfl, by_contra fun foreign => ?_⟩
      rw [report_eq_error_iff.mpr ⟨found, foreign⟩] at given
      cases given
  · intro ended
    cases given : leg.report integrator with
    | ok lines => exact ⟨lines, rfl⟩
    | error fault =>
      obtain ⟨failed, foreign⟩ := report_eq_error_iff.mp given
      obtain ⟨m, found⟩ | ⟨fault', failed', own⟩ := ended
      · cases found.symm.trans failed
      · cases failed'.symm.trans failed
        exact absurd own foreign

/-- In place of a mismatch that is unavailable a report gives the reason. -/
theorem mem_report {fault : Fault α} {message : String} {lines : List String}
    (failed : leg.mismatch integrator = .error fault) (worded : fault.message? = some message)
    (h : leg.report integrator = .ok lines) :
    "Mismatch constraints: unavailable (" ++ message ++ ")" ∈ lines := by
  rw [report, failed, Report.mismatch, worded] at h
  cases h
  simp

/-- A leg that is loaded takes over the settings. -/
theorem config_parse {config : PropagationConfig α} {text : List Char} {leg : Leg α}
    (h : parse config text = .ok leg) : leg.config = config := by
  obtain ⟨document, -, h⟩ := bind_eq_ok_iff.mp h
  obtain ⟨s, hs⟩ := setUp_of_ofJson h
  obtain ⟨-, -, throttles, -, rfl⟩ := setUp_eq_ok_iff.mp hs
  rfl

end Leg

namespace LegCommand

theorem config_written {c : LegCommand α} {leg after : Leg α} (h : c.written leg = .ok after) :
    after.config = leg.config := by
  cases c with
  | configure s =>
    obtain ⟨-, -, throttles, -, rfl⟩ := Leg.setUp_eq_ok_iff.mp h
    rfl
  | setStartEpoch | setFinalEpoch | setMu | setThrottles =>
    obtain ⟨_, -, h⟩ := bind_eq_ok_iff.mp h
    cases h
    rfl
  | resize size =>
    simp only [written] at h
    split at h
    · cases h
    · cases h; rfl
  | setThrottle index segment =>
    simp only [written] at h
    split at h
    · cases h; rfl
    · cases h
  | load text => exact Leg.config_parse h
  | reload =>
    obtain ⟨text, -, h⟩ := bind_eq_ok_iff.mp h
    exact Leg.config_parse h
  | setStartState | setFinalState | setSpacecraft | setHighFidelity =>
    cases h
    rfl

theorem config_runAll (leg : Leg α) (commands : List (LegCommand α)) :
    (runAll leg commands).config = leg.config := by
  induction commands generalizing leg with
  | nil => rfl
  | cons c commands ih =>
    rw [runAll_cons, ih, run_eq]
    cases h : c.written leg with
    | error => rfl
    | ok after => exact config_written h

/-- After every history: if the integrator comes to an end, an evaluation gives a mismatch or fails
with a fault of the library, and a report is given, with the reason if there is no mismatch. There
is one exception, in which both fail with what the integrator refuses: an arc of thrust starts from
a state that is not finite. -/
theorem mismatch_report_runAll {integrator : Integrator α} {config : PropagationConfig α}
    (screens : integrator.Screens config.integrator) (commands : List (LegCommand α)) :
    let leg := runAll (.empty config) commands
    leg.mismatch integrator ≠ .error (.refused .endless) →
    (((∃ m, leg.mismatch integrator = .ok m) ∨
        ∃ fault, leg.mismatch integrator = .error fault ∧ fault.IsOwn) ↔
      ¬ leg.ThrustsFromNonFinite integrator) ∧
    ((∃ lines, leg.report integrator = .ok lines) ↔ ¬ leg.ThrustsFromNonFinite integrator) ∧
    (leg.ThrustsFromNonFinite integrator →
      leg.mismatch integrator = .error (.refused .stateNotFinite) ∧
        leg.report integrator = .error (.refused .stateNotFinite)) ∧
    ∀ fault message lines, leg.mismatch integrator = .error fault →
      fault.message? = some message → leg.report integrator = .ok lines →
        "Mismatch constraints: unavailable (" ++ message ++ ")" ∈ lines := by
  intro leg ends
  have sound : leg.Sound := sound_runAll (Leg.sound_empty config) commands
  have settings : leg.config = config := config_runAll (.empty config) commands
  rw [← settings] at screens
  refine ⟨Leg.mismatch_ok_or_isOwn_iff sound screens ends,
    Leg.exists_report_iff sound screens ends, ?_, fun fault message lines => Leg.mem_report⟩
  intro thrusts
  have refused := (Leg.mismatch_eq_refused_iff sound screens).mpr thrusts
  exact ⟨refused, Leg.report_eq_error_iff.mpr ⟨refused, Fault.not_isOwn_refused _⟩⟩

/-- A leg under thrust that starts with a mass that is no number. -/
def unknownMass : LegSetup Float where
  startEpoch := some ⟨0.0⟩
  startState := some ⟨⟨⟨1.0, 0.0, 0.0⟩, ⟨0.0, 1.0, 0.0⟩⟩, Scalar.nan⟩
  throttles := .ok [⟨⟨0.0⟩, ⟨1.0⟩, ⟨0.0, 0.0, 0.0⟩⟩]
  finalEpoch := some ⟨1.0⟩
  finalState := some ⟨⟨⟨1.0, 0.0, 0.0⟩, ⟨0.0, 1.0, 0.0⟩⟩, 50.0⟩
  mu := 1.0
  spacecraft := some ⟨50.0, 0.25, 3000.0⟩
  highFidelity := some true

theorem mismatch_unknownMass :
    (runAll (.empty .default) [configure unknownMass]).mismatch DormandPrince.integrator =
      .error (.refused .stateNotFinite) := rfl

theorem mismatch_report_unknownMass :
    let leg := runAll (.empty .default) [configure unknownMass]
    DormandPrince.integrator.Screens (.default : IntegratorConfig Float) ∧
      leg.mismatch DormandPrince.integrator ≠ .error (.refused .endless) ∧
        leg.ThrustsFromNonFinite DormandPrince.integrator ∧
          ¬ ∃ lines, leg.report DormandPrince.integrator = .ok lines := by
  intro leg
  have screens : DormandPrince.integrator.Screens (.default : IntegratorConfig Float) :=
    DormandPrince.screens rfl rfl (by decide)
  have ends : leg.mismatch DormandPrince.integrator ≠ .error (.refused .endless) := by
    rw [mismatch_unknownMass]
    rintro ⟨⟩
  obtain ⟨evaluated, reported, -, -⟩ :=
    mismatch_report_runAll screens [configure unknownMass] ends
  have foreign : leg.ThrustsFromNonFinite DormandPrince.integrator := by
    by_contra accepted
    obtain ⟨m, found⟩ | ⟨fault, failed, own⟩ := evaluated.mpr accepted
    · cases mismatch_unknownMass.symm.trans found
    · cases mismatch_unknownMass.symm.trans failed
      exact Fault.not_isOwn_refused _ own
  exact ⟨screens, ends, foreign, fun given => reported.mp given foreign⟩

/-- Neither a mismatch nor a fault of the library, and no report. -/
theorem evaluation_unknownMass_fails :
    let leg := runAll (.empty .default) [configure unknownMass]
    (¬ ∃ m, leg.mismatch DormandPrince.integrator = .ok m) ∧
      (¬ ∃ fault, leg.mismatch DormandPrince.integrator = .error fault ∧ fault.IsOwn) ∧
        leg.mismatch DormandPrince.integrator ≠ .error (.refused .endless) ∧
          ¬ ∃ lines, leg.report DormandPrince.integrator = .ok lines := by
  intro leg
  have refused : leg.mismatch DormandPrince.integrator = .error (.refused .stateNotFinite) :=
    mismatch_unknownMass
  have foreign := Fault.not_isOwn_refused (α := Float) .stateNotFinite
  have unreported := Leg.report_eq_error_iff.mpr ⟨refused, foreign⟩
  rw [refused, unreported]
  refine ⟨?_, ?_, ?_, ?_⟩
  · rintro ⟨m, ⟨⟩⟩
  · rintro ⟨fault, ⟨⟩, own⟩
    exact foreign own
  · rintro ⟨⟩
  · rintro ⟨lines, ⟨⟩⟩

end LegCommand

end LowThrust
