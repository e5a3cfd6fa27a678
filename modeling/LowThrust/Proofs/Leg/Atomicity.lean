import LowThrust.Binary64.Scalar
import LowThrust.Decimal.Binary64
import LowThrust.Proofs.Leg.Invariant

/-!
Failing commands leave the leg as it was, with one exception: a setup that passes its checks but
lacks an epoch is written before its time of flight turns out not to exist.
-/

namespace LowThrust

variable {α : Type} [Scalar α]

namespace Leg

theorem timeOfFlight_eq_error_iff {start final : Option (Epoch α)} {fault : Fault α} :
    timeOfFlight start final = .error fault ↔
      fault = .noTimeOfFlight ∧ (start = none ∨ final = none) := by
  cases start with
  | none => simp [timeOfFlight, eq_comm]
  | some s => cases final <;> simp [timeOfFlight, eq_comm]

/-- Epochs of which one is missing are not compared. -/
theorem setUp_eq_ok_iff_of_undated {s : LegSetup α} {leg after : Leg α}
    (h : s.startEpoch = none ∨ s.finalEpoch = none) :
    leg.setUp s = .ok after ↔
      s.mu > 0.0 ∧ ∃ throttles, s.throttles = .ok throttles ∧ after = leg.withSetup s throttles := by
  have passes : checkEpochs s.startEpoch s.finalEpoch = .ok () := by
    rw [checkEpochs_eq_ok_iff]
    intro start final hs hf
    cases h with
    | inl h => rw [h] at hs; cases hs
    | inr h => rw [h] at hf; cases hf
  rw [setUp_eq_ok_iff, checkMu_eq_ok_iff]
  simp only [passes, true_and]

end Leg

namespace LegCommand

theorem conclude_eq_error_iff {c : LegCommand α} {fault : Fault α} :
    c.conclude = .error fault ↔ fault = .noTimeOfFlight ∧
      ∃ s, c = .configure s ∧ (s.startEpoch = none ∨ s.finalEpoch = none) := by
  cases c with
  | configure s =>
    rw [conclude]
    cases h : Leg.timeOfFlight s.startEpoch s.finalEpoch with
    | ok =>
      have dated : ¬ (s.startEpoch = none ∨ s.finalEpoch = none) := by
        intro undated
        have := Leg.timeOfFlight_eq_error_iff.mpr ⟨rfl, undated⟩
        rw [h] at this
        cases this
      constructor
      · intro h; cases h
      · rintro ⟨-, s', hs, undated⟩
        cases hs
        exact absurd undated dated
    | error fault' =>
      obtain ⟨rfl, undated⟩ := Leg.timeOfFlight_eq_error_iff.mp h
      constructor
      · intro h; cases h; exact ⟨rfl, s, rfl, undated⟩
      · rintro ⟨rfl, -⟩; rfl
  | _ =>
    constructor
    · intro h; cases h
    · rintro ⟨-, s, hs, -⟩; cases hs

variable [DecimalText α]

/-- A failing command either was refused or had already written the leg. -/
theorem run_eq_error_iff {c : LegCommand α} {leg after : Leg α} {fault : Fault α} :
    c.run leg = (.error fault, after) ↔
      c.written leg = .error fault ∧ after = leg ∨
        c.written leg = .ok after ∧ c.conclude = .error fault := by
  rw [run_eq]
  cases c.written leg with
  | error => simp [eq_comm]
  | ok => simp [and_comm]

/-- The commands that fail and change the leg nevertheless. -/
theorem failed_and_changed_iff (c : LegCommand α) (leg after : Leg α) (fault : Fault α) :
    c.run leg = (.error fault, after) ∧ after ≠ leg ↔
      (∃ s throttles, c = .configure s ∧ (s.startEpoch = none ∨ s.finalEpoch = none) ∧
        s.mu > 0.0 ∧ s.throttles = .ok throttles ∧ after = leg.withSetup s throttles) ∧
      fault = .noTimeOfFlight ∧ after ≠ leg := by
  rw [run_eq_error_iff, conclude_eq_error_iff]
  constructor
  · rintro ⟨⟨-, rfl⟩ | ⟨hw, rfl, s, rfl, undated⟩, changed⟩
    · exact absurd rfl changed
    · obtain ⟨hm, throttles, ht, rfl⟩ := (Leg.setUp_eq_ok_iff_of_undated undated).mp hw
      exact ⟨⟨s, throttles, rfl, undated, hm, ht, rfl⟩, rfl, changed⟩
  · rintro ⟨⟨s, throttles, rfl, undated, hm, ht, rfl⟩, rfl, changed⟩
    have hw : leg.setUp s = .ok (leg.withSetup s throttles) :=
      (Leg.setUp_eq_ok_iff_of_undated undated).mpr ⟨hm, throttles, ht, rfl⟩
    exact ⟨.inr ⟨hw, rfl, s, rfl, undated⟩, changed⟩

/-- A setup without a final epoch fails on an empty leg and leaves its segment there. -/
theorem failed_and_changed_undated_setup :
    ¬ ∀ (config : PropagationConfig Float) (commands : List (LegCommand Float))
      (c : LegCommand Float) (fault : Fault Float),
      (c.run (runAll (.empty config) commands)).1 = .error fault →
        (c.run (runAll (.empty config) commands)).2 = runAll (.empty config) commands := by
  intro h
  let setup : LegSetup Float := {
    startEpoch := some .origin
    startState := none
    throttles := .ok [.placeholder]
    finalEpoch := none
    finalState := none
    mu := 1.0 }
  have fails : (LegCommand.configure setup).run (.empty .default) =
      (.error .noTimeOfFlight, (Leg.empty .default).withSetup setup [.placeholder]) := by
    refine run_eq_error_iff.mpr (.inr ⟨?_, rfl⟩)
    exact (Leg.setUp_eq_ok_iff_of_undated (.inr rfl)).mpr ⟨by decide, _, rfl, rfl⟩
  have kept := h .default [] (.configure setup) .noTimeOfFlight (congrArg Prod.fst fails)
  have lengths := congrArg (fun leg => leg.throttles.length) ((congrArg Prod.snd fails).symm.trans kept)
  simp [Leg.withSetup, runAll, Leg.empty] at lengths

end LegCommand

end LowThrust
