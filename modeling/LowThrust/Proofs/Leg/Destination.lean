import LowThrust.Integrator.DormandPrince
import LowThrust.Leg.Evaluation
import LowThrust.Proofs.Faults
import LowThrust.Proofs.Kepler.Arrays
import LowThrust.Proofs.Leg.Exchange

/-!
Evaluation into a destination. A leg that there can be is refused only if a field is missing or the
destination has the wrong length; the checks inside the evaluation are passed. What fails leaves the
destination alone, and what succeeds puts there what is returned without one.
-/

namespace LowThrust

variable {α : Type}

/-! ### States from arrays -/

/-- A solver, by the last column of its solution: the settings, the rate of change, the ends of the
span and the state at its start. -/
abbrev ColumnSolver (α : Type) :=
  IntegratorConfig α → (State α → State α) → α → α → State α → Except (Fault α) (List α)

namespace ColumnSolver

/-- The solver does not complain about the setup of a leg. -/
def IsClean (solver : ColumnSolver α) : Prop :=
  ∀ config rate a b s, FailsOnly (¬ Fault.IsMisconfiguration ·) (solver config rate a b s)

/-- Its columns have as many entries as a state. -/
def IsComplete (solver : ColumnSolver α) : Prop :=
  ∀ config rate a b s column, solver config rate a b s = .ok column → column.length = 7

end ColumnSolver

theorem State.exists_ofList? {column : List α} (h : column.length = 7) :
    ∃ s, State.ofList? column = some s := by
  match column, h with
  | [_, _, _, _, _, _, _], _ => exact ⟨_, rfl⟩

namespace Integrator

/-- A state is made of the last column, once that is checked to have seven entries. -/
def Reads (integrator : Integrator α) (solver : ColumnSolver α) : Prop :=
  ∀ config rate a b s, integrator.final config rate a b s = do
    let column ← solver config rate a b s
    State.ofTensor ⟨[column.length], column⟩

/-- A span that is given ends in no complaint about the setup of a leg. -/
def IsClean (integrator : Integrator α) : Prop :=
  ∀ config rate a b s, FailsOnly (¬ Fault.IsMisconfiguration ·) (integrator.final config rate a b s)

theorem Reads.isClean {integrator : Integrator α} {solver : ColumnSolver α}
    (reads : integrator.Reads solver) (clean : solver.IsClean) (complete : solver.IsComplete) :
    integrator.IsClean := by
  intro config rate a b s
  rw [reads]
  cases solved : solver config rate a b s with
  | error fault => exact .error (clean _ _ _ _ _ fault solved)
  | ok column =>
    have seven := complete _ _ _ _ _ column solved
    obtain ⟨s', hs'⟩ := State.exists_ofList? seven
    change FailsOnly _ (State.ofTensor ⟨[column.length], column⟩)
    rw [seven, State.ofTensor, if_pos rfl, hs']
    exact .ok s'

end Integrator

variable [Scalar α]

/-! ### Faults of a flight -/

/-- A coast about a centre that attracts fails only for want of iterations. -/
theorem Kepler.propagate_failsOnly {mu : α} (hmu : mu > 0.0) (config : KeplerConfig α)
    (start : Motion α) (dt : α) :
    FailsOnly (fun fault => ∃ cause, fault = .propagation cause)
      (propagate config mu start dt) := by
  rw [propagate, Orbit.coast, if_pos hmu]
  split
  · exact .ok _
  · split
    · split
      · exact .ok _
      · exact .ok _
      · exact .error ⟨_, rfl⟩
    · exact .ok _

namespace Flight

variable {P : Fault α → Prop} {coast : Coast α} {arc : ThrustArc α}

theorem coastTo_failsOnly (hc : ∀ m dt, FailsOnly P (coast m dt)) (f : Flight α) (clock : α) :
    FailsOnly P (f.coastTo coast clock) :=
  .bind (hc _ _) fun _ => .ok _

theorem impulsive_failsOnly (hc : ∀ m dt, FailsOnly P (coast m dt)) (e : Engine α) (f : Flight α)
    (s : ThrottleSegment α) : FailsOnly P (f.impulsive coast e s) :=
  .bind (coastTo_failsOnly hc f _) fun _ => .ok _

theorem throughArc_failsOnly (hc : ∀ m dt, FailsOnly P (coast m dt))
    (ha : ∀ s dt thrust, FailsOnly P (arc s dt thrust)) (thrust : α) (f : Flight α)
    (s : ThrottleSegment α) : FailsOnly P (f.throughArc coast arc thrust s) :=
  .bind (coastTo_failsOnly hc f _) fun _ => .bind (ha _ _ _) fun _ => .ok _

theorem backThroughArc_failsOnly (hc : ∀ m dt, FailsOnly P (coast m dt))
    (ha : ∀ s dt thrust, FailsOnly P (arc s dt thrust)) (thrust : α) (f : Flight α)
    (s : ThrottleSegment α) : FailsOnly P (f.backThroughArc coast arc thrust s) :=
  .bind (coastTo_failsOnly hc f _) fun _ => .bind (ha _ _ _) fun _ => .ok _

theorem mismatch_failsOnly (hc : ∀ m dt, FailsOnly P (coast m dt)) (f g : Flight α) :
    FailsOnly P (f.mismatch coast g) :=
  .bind (coastTo_failsOnly hc f _) fun _ => .ok _

end Flight

namespace Transfer

variable {P : Fault α → Prop} {coast : Coast α} {arc : ThrustArc α} (t : Transfer α)

theorem shootImpulsive_failsOnly (hc : ∀ m dt, FailsOnly P (coast m dt)) :
    FailsOnly P (t.shootImpulsive coast) := by
  refine .bind (.foldlM (fun s _ f => Flight.impulsive_failsOnly hc _ f s) _) fun f => ?_
  refine .bind (.foldlM (fun s _ f => Flight.impulsive_failsOnly hc _ f s) _) fun g => ?_
  exact Flight.mismatch_failsOnly hc f g

theorem shootHighFidelity_failsOnly (hc : ∀ m dt, FailsOnly P (coast m dt))
    (ha : ∀ s dt thrust, FailsOnly P (arc s dt thrust)) :
    FailsOnly P (t.shootHighFidelity coast arc) := by
  refine .bind (.foldlM (fun s _ f => Flight.throughArc_failsOnly hc ha _ f s) _) fun f => ?_
  refine .bind (.foldlM (fun s _ f => Flight.backThroughArc_failsOnly hc ha _ f s) _) fun g => ?_
  exact Flight.mismatch_failsOnly hc f g

theorem thrustArc_eq (integrator : Integrator α) (p : Propagator α) (s : State α) (dt : α)
    (thrust : Vec3 α) :
    t.thrustArc integrator p s dt thrust =
      if dt == 0.0 then .ok s
      else integrator.final p.config.integrator (State.thrustRate p.mu thrust
        (Thrust.massRate ⟨thrust.toList, t.spacecraft.isp⟩)) 0.0 dt s := by
  have axes : Thrust.axes ⟨thrust.toList, t.spacecraft.isp⟩ = .ok thrust := by simp [Thrust.axes]
  rw [thrustArc, Propagator.thrustArc, axes]
  rfl

theorem thrustArc_failsOnly {integrator : Integrator α} {p : Propagator α}
    (hi : ∀ rate a b s, FailsOnly P (integrator.final p.config.integrator rate a b s))
    (s : State α) (dt : α) (thrust : Vec3 α) :
    FailsOnly P (t.thrustArc integrator p s dt thrust) := by
  rw [thrustArc_eq]
  split
  · exact .ok s
  · exact hi _ _ _ _

/-- About a centre that attracts, an evaluation fails only as its coasts and its integrator do. -/
theorem mismatch_failsOnly {integrator : Integrator α} (hmu : t.mu > 0.0)
    (hp : ∀ cause, P (.propagation cause))
    (hi : ∀ rate a b s, FailsOnly P (integrator.final t.config.integrator rate a b s)) :
    FailsOnly P (t.mismatch integrator) := by
  have coast (m : Motion α) (dt : α) : FailsOnly P (t.coast m dt) := by
    refine (Kepler.propagate_failsOnly hmu _ m dt).mono ?_
    rintro _ ⟨cause, rfl⟩
    exact hp cause
  rw [mismatch, mismatchBy]
  split
  · rw [Propagator.create, if_pos hmu]
    exact t.shootHighFidelity_failsOnly coast (t.thrustArc_failsOnly hi)
  · exact t.shootImpulsive_failsOnly coast

end Transfer

/-! ### Destinations -/

/-- A result of a fixed length is written as a whole, or the destination is left alone. -/
structure Destination.Delivers (evaluate : Destination α Unit) (length : Nat)
    (result : Except (Fault α) (List α)) (out : List α) : Prop where
  kept : ∀ fault after, evaluate.run out = .error fault after → after = out
  written : ∀ after, evaluate.run out = .ok () after ↔ out.length = length ∧ result = .ok after

section Unset

omit [Scalar α]

theorem run_checkDestination (evaluation : Evaluation) (expected : Nat) (out : List α) :
    (checkDestination evaluation expected).run out =
      if out.length = expected then .ok () out
      else .error (.configuration (.destinationLength evaluation out.length expected)) out := by
  by_cases h : out.length = expected <;> simp [checkDestination, EStateM.run_bind, h]

namespace Leg

theorem missing_ne_nil_iff (leg : Leg α) : leg.missing ≠ [] ↔ ∃ field, leg.isSet field = false := by
  have required (field : LegField) : field ∈ requiredFields := by cases field <;> decide
  simp [missing, List.filter_eq_nil_iff, required]

theorem snapshot_of_missing {leg : Leg α} (h : leg.missing ≠ []) :
    leg.snapshot = .error (.configuration (.fieldsMissing leg.missing)) := by
  rw [snapshot]
  rintro _ _ _ _ _ _ _ _ _ rfl
  exact h rfl

end Leg

end Unset

namespace Leg

variable (integrator : Integrator α) (leg : Leg α) (out : List α)

theorem run_mismatchInto :
    (leg.mismatchInto integrator).run out = match leg.snapshot with
      | .error fault => .error fault out
      | .ok t =>
        if out.length = 7 then
          match t.mismatch integrator with
          | .error fault => .error fault out
          | .ok m => .ok () m.toList
        else .error (.configuration (.destinationLength .mismatch out.length 7)) out := by
  simp only [mismatchInto, EStateM.run_bind, run_ofExcept, run_checkDestination]
  cases leg.snapshot with
  | error => rfl
  | ok t =>
    by_cases h : out.length = 7
    · simp only [h, if_true]
      cases t.mismatch integrator <;> rfl
    · simp only [h, if_false]

theorem run_constraintsInto :
    leg.constraintsInto.run out =
      if out.length = leg.throttles.length then .ok () leg.constraints
      else .error (.configuration (.destinationLength .constraints out.length leg.throttles.length))
        out := by
  simp only [constraintsInto, EStateM.run_bind, run_checkDestination]
  by_cases h : out.length = leg.throttles.length
  · simp only [h, if_true]
    rfl
  · simp only [h, if_false]

theorem mismatchInto_delivers :
    Destination.Delivers (leg.mismatchInto integrator) 7
      ((leg.mismatch integrator).map State.toList) out := by
  constructor
  · intro fault after failed
    rw [run_mismatchInto] at failed
    cases snapshot : leg.snapshot with
    | error => rw [snapshot] at failed; cases failed; rfl
    | ok t =>
      rw [snapshot] at failed
      by_cases h : out.length = 7
      · simp only [h, if_true] at failed
        cases found : t.mismatch integrator with
        | error => rw [found] at failed; cases failed; rfl
        | ok m => rw [found] at failed; cases failed
      · simp only [h, if_false] at failed
        cases failed
        rfl
  · intro after
    rw [run_mismatchInto, mismatch]
    cases leg.snapshot with
    | error => simp [Except.map, bind, Except.bind]
    | ok t =>
      by_cases h : out.length = 7
      · simp only [h, if_true, bind, Except.bind, true_and]
        cases t.mismatch integrator <;> simp [Except.map]
      · simp only [h, if_false, false_and, reduceCtorEq]

theorem constraintsInto_delivers :
    Destination.Delivers leg.constraintsInto leg.throttles.length (.ok leg.constraints) out := by
  constructor
  · intro fault after failed
    rw [run_constraintsInto] at failed
    by_cases h : out.length = leg.throttles.length
    · rw [if_pos h] at failed
      cases failed
    · rw [if_neg h] at failed
      cases failed
      rfl
  · intro after
    rw [run_constraintsInto]
    by_cases h : out.length = leg.throttles.length <;> simp [h]

theorem Sound.mismatch_failsOnly_of_snapshot {leg : Leg α} (hs : leg.Sound) {t : Transfer α}
    (snapshot : leg.snapshot = .ok t) {integrator : Integrator α} (hi : integrator.IsClean) :
    FailsOnly (¬ Fault.IsMisconfiguration ·) (t.mismatch integrator) := by
  obtain rfl := eq_toLeg_of_snapshot snapshot
  refine t.mismatch_failsOnly (hs.gravity t.mu rfl) ?_ (hi _)
  rintro cause ⟨_, ⟨⟩⟩

/-- A leg that has passed its checks is complained about only if a field is missing. -/
theorem exists_misconfiguration_mismatch_iff {leg : Leg α} (hs : leg.Sound)
    {integrator : Integrator α} (hi : integrator.IsClean) :
    (∃ cause, leg.mismatch integrator = .error (.configuration cause)) ↔
      ∃ field, leg.isSet field = false := by
  rw [← missing_ne_nil_iff]
  constructor
  · rintro ⟨cause, failed⟩ complete
    obtain ⟨t, snapshot⟩ := leg.missing_eq_nil_iff.mp complete
    have clean := hs.mismatch_failsOnly_of_snapshot snapshot hi
    rw [mismatch, snapshot] at failed
    exact clean _ failed ⟨cause, rfl⟩
  · intro incomplete
    refine ⟨.fieldsMissing leg.missing, ?_⟩
    rw [mismatch, snapshot_of_missing incomplete]
    rfl

/-- The two complaints about the writing of a mismatch. -/
theorem run_mismatchInto_eq_misconfiguration_iff {leg : Leg α} (hs : leg.Sound)
    {integrator : Integrator α} (hi : integrator.IsClean)
    {out after : List α} {cause : Misconfiguration α} :
    (leg.mismatchInto integrator).run out = .error (.configuration cause) after ↔
      after = out ∧
        (leg.missing ≠ [] ∧ cause = .fieldsMissing leg.missing ∨
          leg.missing = [] ∧ out.length ≠ 7 ∧
            cause = .destinationLength .mismatch out.length 7) := by
  rw [run_mismatchInto]
  by_cases incomplete : leg.missing = []
  · obtain ⟨t, snapshot⟩ := leg.missing_eq_nil_iff.mp incomplete
    have clean := hs.mismatch_failsOnly_of_snapshot snapshot hi
    rw [snapshot]
    by_cases h : out.length = 7
    · simp only [h, if_true]
      cases found : t.mismatch integrator with
      | error fault =>
        have : ¬ fault.IsMisconfiguration := clean fault found
        simp only [EStateM.Result.error.injEq]
        constructor
        · rintro ⟨rfl, -⟩
          exact absurd ⟨cause, rfl⟩ this
        · simp [incomplete]
      | ok m => simp [incomplete]
    · simp [h, incomplete, eq_comm, and_comm]
  · simp [snapshot_of_missing incomplete, incomplete, eq_comm, and_comm]

end Leg

/-! ### The integrator that runs -/

namespace DormandPrince

/-- The last column of the solution. -/
def column : ColumnSolver Float := fun config rate a b s =>
  (solve ⟨config, rate, a, b⟩ s []).map fun reached => reached.y.toList

theorem reads_column : integrator.Reads column := by
  intro config rate a b s
  simp only [integrator, column]
  cases solve ⟨config, rate, a, b⟩ s [] <;> rfl

theorem isComplete_column : column.IsComplete := by
  intro config rate a b s _ solved
  rw [column] at solved
  cases reached : solve ⟨config, rate, a, b⟩ s [] with
  | error => rw [reached] at solved; cases solved
  | ok => rw [reached] at solved; cases solved; rfl

/-- Whatever ends the steps early is either too short a step or too many of them. -/
theorem run_failsOnly (p : Problem) (fuel : Nat) (s : Progress) :
    FailsOnly (fun fault => (∃ cause, fault = .propagation cause) ∨ fault = .refused .endless)
      (run p fuel s) := by
  induction fuel generalizing s with
  | zero => exact .error (.inr rfl)
  | succ fuel ih =>
    simp only [run]
    repeat' split
    all_goals first | exact ih _ | exact .ok _ | exact .error (.inl ⟨_, rfl⟩)

theorem isClean_column : column.IsClean := by
  intro config rate a b s
  have steps (p : Problem) (s : Progress) :
      FailsOnly (¬ Fault.IsMisconfiguration ·) (run p stepLimit s) := by
    refine (run_failsOnly p stepLimit s).mono ?_
    rintro _ (⟨_, rfl⟩ | rfl) ⟨_, ⟨⟩⟩
  refine .map ?_
  simp only [solve]
  repeat' split
  all_goals first | exact steps _ _ | exact .error (by rintro ⟨_, ⟨⟩⟩)

end DormandPrince

/-! ### Evaluations of legs that there can be -/

namespace LegCommand

variable [DecimalText α]

/-- After every history, what is complained about is a field that is missing or the length of the
destination, and nothing that is met on the way: motions may as well be made of arrays whose sizes
are checked. Whatever goes wrong, the destination is left as it is; otherwise it holds what is
returned without one. -/
theorem evaluation_runAll {integrator : Integrator α} {solver : ColumnSolver α}
    (reads : integrator.Reads solver) (clean : solver.IsClean) (complete : solver.IsComplete)
    (config : PropagationConfig α) (commands : List (LegCommand α)) (out : List α) :
    let leg := runAll (.empty config) commands
    let mismatch := (leg.mismatchInto integrator).run out
    let constraints := leg.constraintsInto.run out
    ((∃ cause, leg.mismatch integrator = .error (.configuration cause)) ↔
        ∃ field, leg.isSet field = false) ∧
      ((∃ cause after, mismatch = .error (.configuration cause) after) ↔
        (∃ field, leg.isSet field = false) ∨ out.length ≠ 7) ∧
      (∀ cause after, mismatch = .error (.configuration cause) after →
        cause = .fieldsMissing leg.missing ∨ cause = .destinationLength .mismatch out.length 7) ∧
      (∀ t, leg.snapshot = .ok t →
        t.mismatchBy integrator (Kepler.propagateArrays t.config.kepler t.mu) =
          t.mismatch integrator) ∧
      ((∃ cause after, constraints = .error (.configuration cause) after) ↔
        out.length ≠ leg.throttles.length) ∧
      (leg.mismatchInto integrator).Delivers 7 ((leg.mismatch integrator).map State.toList) out ∧
      leg.constraintsInto.Delivers leg.throttles.length (.ok leg.constraints) out := by
  intro leg mismatch constraints
  have sound : leg.Sound := sound_runAll (Leg.sound_empty config) commands
  have hi := reads.isClean clean complete
  refine ⟨Leg.exists_misconfiguration_mismatch_iff sound hi, ?_, ?_, ?_, ?_,
    leg.mismatchInto_delivers integrator out, leg.constraintsInto_delivers out⟩
  · rw [← leg.missing_ne_nil_iff]
    simp only [mismatch, Leg.run_mismatchInto_eq_misconfiguration_iff sound hi]
    by_cases incomplete : leg.missing = [] <;> simp [incomplete]
  · intro cause after failed
    obtain ⟨-, ⟨-, rfl⟩ | ⟨-, -, rfl⟩⟩ :=
      (Leg.run_mismatchInto_eq_misconfiguration_iff sound hi).mp failed
    · exact .inl rfl
    · exact .inr rfl
  · intro t _
    rw [Kepler.propagateArrays_eq]
    rfl
  · simp only [constraints, Leg.run_constraintsInto]
    by_cases h : out.length = leg.throttles.length <;> simp [h]

theorem evaluation_farTransfer :
    let leg := runAll (.empty .default) [configure farTransfer]
    let evaluate := (leg.mismatchInto DormandPrince.integrator).run
    DormandPrince.integrator.Reads DormandPrince.column ∧
      DormandPrince.column.IsClean ∧ DormandPrince.column.IsComplete ∧
      (¬ ∃ cause after,
        evaluate (List.replicate 7 0.0) = .error (.configuration cause) after) ∧
      ∃ cause after, evaluate (List.replicate 6 0.0) = .error (.configuration cause) after := by
  intro leg evaluate
  have complete : leg.missing = [] := by decide
  have every : ¬ ∃ field, leg.isSet field = false := fun unset =>
    leg.missing_ne_nil_iff.mpr unset complete
  have asked := evaluation_runAll DormandPrince.reads_column DormandPrince.isClean_column
    DormandPrince.isComplete_column .default [configure farTransfer]
  refine ⟨DormandPrince.reads_column, DormandPrince.isClean_column,
    DormandPrince.isComplete_column, ?_, ?_⟩
  · rw [(asked (List.replicate 7 0.0)).2.1]
    rintro (unset | length)
    · exact every unset
    · exact length List.length_replicate
  · rw [(asked (List.replicate 6 0.0)).2.1]
    exact .inr (by rw [List.length_replicate]; decide)

end LegCommand

end LowThrust
