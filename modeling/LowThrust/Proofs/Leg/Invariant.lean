import LowThrust.Binary64.Scalar
import LowThrust.Decimal.Binary64
import LowThrust.Proofs.Binary64.Order
import LowThrust.Proofs.Leg.Step

/-!
What holds of a leg after every history of commands: the final epoch is not at or before the first
one, and the gravitational parameter is positive.
-/

namespace LowThrust

variable {α : Type} [Scalar α]

namespace Leg

/-- An epoch that is not a number is neither before nor after another. -/
structure Sound (leg : Leg α) : Prop where
  epochs : ∀ s f, leg.startEpoch = some s → leg.finalEpoch = some f → ¬ f ≤ s
  gravity : ∀ mu, leg.mu = some mu → mu > 0.0

theorem checkEpochs_eq_ok_iff (start final : Option (Epoch α)) :
    checkEpochs start final = .ok () ↔
      ∀ s f, start = some s → final = some f → ¬ f ≤ s := by
  cases start with
  | none => simp [checkEpochs]
  | some s =>
    cases final with
    | none => simp [checkEpochs]
    | some f => by_cases h : f ≤ s <;> simp [checkEpochs, h]

theorem checkMu_eq_ok_iff (mu : α) : checkMu mu = .ok () ↔ mu > 0.0 := by
  by_cases h : mu > 0.0 <;> simp [checkMu, h]

theorem sound_empty (config : PropagationConfig α) : (empty config).Sound where
  epochs := by simp [empty]
  gravity := by simp [empty]

theorem sound_setUp {s : LegSetup α} {leg after : Leg α} (h : leg.setUp s = .ok after) :
    after.Sound := by
  obtain ⟨he, hm, throttles, -, rfl⟩ := setUp_eq_ok_iff.mp h
  constructor
  · exact (checkEpochs_eq_ok_iff _ _).mp he
  · intro mu hmu
    cases hmu
    exact (checkMu_eq_ok_iff _).mp hm

variable [DecimalText α]

/-- A document sets up an empty leg. -/
theorem setUp_of_ofJson {config : PropagationConfig α} {document : Json α} {leg : Leg α}
    (h : ofJson config document = .ok leg) : ∃ s, (empty config).setUp s = .ok leg := by
  cases document with
  | obj members =>
    simp only [ofJson] at h
    split at h
    · obtain ⟨s, -, h⟩ := bind_eq_ok_iff.mp h
      rw [run_configure] at h
      cases hu : (empty config).setUp s with
      | error => rw [hu] at h; cases h
      | ok after =>
        rw [hu] at h
        cases ht : timeOfFlight s.startEpoch s.finalEpoch with
        | error => rw [ht] at h; cases h
        | ok => rw [ht] at h; cases h; exact ⟨s, hu⟩
    · cases h
  | null | bool | int | real | str | arr => cases h

theorem sound_parse {config : PropagationConfig α} {text : List Char} {leg : Leg α}
    (h : parse config text = .ok leg) : leg.Sound := by
  obtain ⟨document, -, h⟩ := bind_eq_ok_iff.mp h
  obtain ⟨s, hs⟩ := setUp_of_ofJson h
  exact sound_setUp hs

end Leg

namespace LegCommand

variable [DecimalText α]

theorem sound_written {c : LegCommand α} {leg after : Leg α} (hs : leg.Sound)
    (h : c.written leg = .ok after) : after.Sound := by
  cases c with
  | configure s => exact Leg.sound_setUp h
  | setStartEpoch t =>
    obtain ⟨_, hc, h⟩ := bind_eq_ok_iff.mp h
    cases h
    exact ⟨(Leg.checkEpochs_eq_ok_iff _ _).mp hc, hs.gravity⟩
  | setFinalEpoch t =>
    obtain ⟨_, hc, h⟩ := bind_eq_ok_iff.mp h
    cases h
    exact ⟨(Leg.checkEpochs_eq_ok_iff _ _).mp hc, hs.gravity⟩
  | setMu mu =>
    obtain ⟨_, hc, h⟩ := bind_eq_ok_iff.mp h
    cases h
    refine ⟨hs.epochs, ?_⟩
    intro mu' hmu
    cases hmu
    exact (Leg.checkMu_eq_ok_iff _).mp hc
  | setThrottles source =>
    obtain ⟨throttles, -, h⟩ := bind_eq_ok_iff.mp h
    cases h
    exact ⟨hs.epochs, hs.gravity⟩
  | resize size =>
    simp only [written] at h
    split at h
    · cases h
    · cases h; exact ⟨hs.epochs, hs.gravity⟩
  | setThrottle index segment =>
    simp only [written] at h
    split at h
    · cases h; exact ⟨hs.epochs, hs.gravity⟩
    · cases h
  | load text => exact Leg.sound_parse h
  | reload =>
    obtain ⟨text, -, h⟩ := bind_eq_ok_iff.mp h
    exact Leg.sound_parse h
  | setStartState | setFinalState | setSpacecraft | setHighFidelity =>
    cases h
    exact ⟨hs.epochs, hs.gravity⟩

theorem sound_run {leg : Leg α} (hs : leg.Sound) (c : LegCommand α) : (c.run leg).2.Sound := by
  rw [run_eq]
  cases h : c.written leg with
  | error => exact hs
  | ok => exact sound_written hs h

theorem sound_runAll {leg : Leg α} (hs : leg.Sound) (commands : List (LegCommand α)) :
    (runAll leg commands).Sound := by
  induction commands generalizing leg with
  | nil => exact hs
  | cons c commands ih => exact ih (sound_run hs c)

/-- After every history the final epoch is after the first one, unless one of them is not a number,
and the gravitational parameter is positive. -/
theorem epochs_increasing_iff_numbers (config : PropagationConfig Float)
    (commands : List (LegCommand Float)) :
    let leg := runAll (.empty config) commands
    (∀ s f, leg.startEpoch = some s → leg.finalEpoch = some f →
      (s < f ↔ ¬ s.mjd2000.isNaN ∧ ¬ f.mjd2000.isNaN)) ∧
      ∀ mu, leg.mu = some mu → 0.0 < mu := by
  intro leg
  have sound : leg.Sound := sound_runAll (Leg.sound_empty config) commands
  refine ⟨?_, sound.gravity⟩
  intro s f hs hf
  exact Binary64.lt_iff_of_not_le (sound.epochs s f hs hf)

theorem epochs_increasing_of_numbers :
    let leg : Leg Float := runAll (.empty .default) [.setStartEpoch (some ⟨0.0⟩),
      .setFinalEpoch (some ⟨200.0⟩), .setMu 1.32712440018e11]
    (leg.startEpoch = some ⟨0.0⟩ ∧ leg.finalEpoch = some ⟨200.0⟩ ∧
      leg.mu = some 1.32712440018e11) ∧
      ((⟨0.0⟩ : Epoch Float) < ⟨200.0⟩ ↔ ¬ Float.isNaN 0.0 ∧ ¬ Float.isNaN 200.0) ∧
        (0.0 : Float) < 1.32712440018e11 := by
  intro leg
  have history := epochs_increasing_iff_numbers .default [.setStartEpoch (some ⟨0.0⟩),
    .setFinalEpoch (some ⟨200.0⟩), .setMu 1.32712440018e11]
  have hs : leg.startEpoch = some ⟨0.0⟩ := by decide
  have hf : leg.finalEpoch = some ⟨200.0⟩ := by decide
  have hm : leg.mu = some 1.32712440018e11 := by decide
  exact ⟨⟨hs, hf, hm⟩, history.1 _ _ hs hf, history.2 _ hm⟩

/-- An epoch that is not a number passes the check. -/
theorem epochs_not_increasing :
    ¬ ∀ (config : PropagationConfig Float) (commands : List (LegCommand Float)) (s f : Epoch Float),
      (runAll (.empty config) commands).startEpoch = some s →
      (runAll (.empty config) commands).finalEpoch = some f → s < f := by
  intro h
  have := h .default [.setStartEpoch (some ⟨Scalar.nan⟩), .setFinalEpoch (some ⟨1.0⟩)]
    ⟨Scalar.nan⟩ ⟨1.0⟩ (by decide) (by decide)
  revert this
  decide

end LegCommand

end LowThrust
