import LowThrust.Leg.Command

/-!
What a command does to a leg. It is refused and leaves the leg alone, or it writes the leg as a
whole; only a setup has something left to do then.
-/

namespace LowThrust

variable {α : Type}

theorem bind_eq_ok_iff {ε β γ : Type} {x : Except ε β} {f : β → Except ε γ} {c : γ} :
    x >>= f = .ok c ↔ ∃ b, x = .ok b ∧ f b = .ok c := by
  cases x with
  | error => simp [bind, Except.bind]
  | ok => simp [bind, Except.bind]

theorem pure_eq_ok_iff {ε β : Type} {b c : β} : (pure b : Except ε β) = .ok c ↔ c = b := by
  simp [pure, Except.pure, eq_comm]

theorem run_ofExcept {ε σ β : Type} (x : Except ε β) (s : σ) :
    EStateM.run (MonadExcept.ofExcept x : EStateM ε σ β) s = match x with
      | .ok b => .ok b s
      | .error fault => .error fault s := by
  cases x <;> rfl

namespace LegEdit

theorem run_discard {β : Type} (x : LegEdit α β) (leg : Leg α) :
    EStateM.run (discard x) leg = match EStateM.run x leg with
      | .ok _ leg => .ok () leg
      | .error fault leg => .error fault leg := by
  change EStateM.map _ x leg = _
  rw [EStateM.map, EStateM.run]
  cases x leg <;> rfl
end LegEdit

namespace Leg

variable [Scalar α]

/-- The leg with a setup that passes its checks. -/
def setUp (s : LegSetup α) (leg : Leg α) : Except (Fault α) (Leg α) := do
  checkEpochs s.startEpoch s.finalEpoch
  checkMu s.mu
  return leg.withSetup s (← s.throttles)

theorem setUp_eq_ok_iff {s : LegSetup α} {leg after : Leg α} :
    leg.setUp s = .ok after ↔
      checkEpochs s.startEpoch s.finalEpoch = .ok () ∧ checkMu s.mu = .ok () ∧
        ∃ throttles, s.throttles = .ok throttles ∧ after = leg.withSetup s throttles := by
  simp only [setUp, bind_eq_ok_iff, pure_eq_ok_iff]
  constructor
  · rintro ⟨_, he, _, hm, written⟩
    exact ⟨he, hm, written⟩
  · rintro ⟨he, hm, written⟩
    exact ⟨(), he, (), hm, written⟩

theorem run_configure (s : LegSetup α) (leg : Leg α) :
    (configure s).run leg = match leg.setUp s with
      | .error fault => .error fault leg
      | .ok after => match timeOfFlight s.startEpoch s.finalEpoch with
        | .ok days => .ok days after
        | .error fault => .error fault after := by
  simp only [configure, setUp, EStateM.run_bind, run_ofExcept]
  cases checkEpochs s.startEpoch s.finalEpoch with
  | error => rfl
  | ok =>
    cases checkMu s.mu with
    | error => rfl
    | ok =>
      cases s.throttles with
      | error => rfl
      | ok => cases timeOfFlight s.startEpoch s.finalEpoch <;> rfl

end Leg

namespace LegCommand

variable [Scalar α] [DecimalText α]

/-- The leg that a command writes, or why it writes none. -/
def written (leg : Leg α) : LegCommand α → Except (Fault α) (Leg α)
  | configure s => leg.setUp s
  | setStartEpoch t => do
    Leg.checkEpochs t leg.finalEpoch
    return { leg with startEpoch := t }
  | setStartState s => .ok { leg with startState := s }
  | setFinalEpoch t => do
    Leg.checkEpochs leg.startEpoch t
    return { leg with finalEpoch := t }
  | setFinalState s => .ok { leg with finalState := s }
  | setSpacecraft sc => .ok { leg with spacecraft := sc }
  | setMu mu => do
    Leg.checkMu mu
    return { leg with mu := some mu }
  | setHighFidelity flag => .ok { leg with highFidelity := flag }
  | setThrottles source => return { leg with throttles := ← source }
  | resize size =>
    if size < 0 then .error (.configuration (.throttleListSize size))
    else .ok { leg with
      throttles := leg.throttles.take size.toNat ++
        List.replicate (size.toNat - leg.throttles.length) .placeholder }
  | setThrottle index segment =>
    match Leg.position? leg.throttles.length index with
    | some i => .ok { leg with throttles := leg.throttles.set i segment }
    | none => .error .indexOutOfRange
  | load text => Leg.parse leg.config text
  | reload => do Leg.parse leg.config (← leg.print Leg.fileStyle)

/-- What is still worked out once the leg is written. -/
def conclude : LegCommand α → Except (Fault α) Unit
  | configure s => discard (Leg.timeOfFlight s.startEpoch s.finalEpoch)
  | _ => .ok ()

theorem run_eq (c : LegCommand α) (leg : Leg α) :
    c.run leg = match c.written leg with
      | .error fault => (.error fault, leg)
      | .ok after => (c.conclude, after) := by
  cases c with
  | configure s =>
    simp only [run, edit, written, conclude, LegEdit.run_discard, Leg.run_configure]
    cases leg.setUp s with
    | error => rfl
    | ok => cases Leg.timeOfFlight s.startEpoch s.finalEpoch <;> rfl
  | setStartEpoch t =>
    simp only [run, edit, written, Leg.setStartEpoch, EStateM.run_bind, EStateM.run_get, run_ofExcept]
    cases Leg.checkEpochs t leg.finalEpoch <;> rfl
  | setFinalEpoch t =>
    simp only [run, edit, written, Leg.setFinalEpoch, EStateM.run_bind, EStateM.run_get, run_ofExcept]
    cases Leg.checkEpochs leg.startEpoch t <;> rfl
  | setMu mu =>
    simp only [run, edit, written, Leg.setMu, EStateM.run_bind, run_ofExcept]
    cases Leg.checkMu mu <;> rfl
  | setThrottles source => cases source <;> rfl
  | resize size =>
    simp only [run, edit, written, Leg.resize]
    by_cases h : size < 0 <;> simp only [h, if_true, if_false] <;> rfl
  | setThrottle index segment =>
    simp only [run, edit, written, Leg.setThrottle, EStateM.run_bind, EStateM.run_get]
    cases Leg.position? leg.throttles.length index <;> rfl
  | load text =>
    simp only [run, edit, written, Leg.load, EStateM.run_bind, EStateM.run_get, run_ofExcept]
    cases Leg.parse leg.config text <;> rfl
  | reload =>
    simp only [run, edit, written, Leg.reload, Leg.load, EStateM.run_bind, EStateM.run_get, run_ofExcept]
    cases leg.print Leg.fileStyle with
    | error => rfl
    | ok text =>
      dsimp only [bind, Except.bind]
      cases Leg.parse leg.config text <;> rfl
  | setStartState | setFinalState | setSpacecraft | setHighFidelity => rfl

theorem runAll_cons (leg : Leg α) (c : LegCommand α) (commands : List (LegCommand α)) :
    runAll leg (c :: commands) = runAll (c.run leg).2 commands := rfl

theorem runAll_append (leg : Leg α) (before after : List (LegCommand α)) :
    runAll leg (before ++ after) = runAll (runAll leg before) after :=
  List.foldl_append

end LegCommand

end LowThrust
