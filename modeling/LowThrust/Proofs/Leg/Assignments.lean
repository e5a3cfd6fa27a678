import LowThrust.Binary64.Scalar
import LowThrust.Decimal.Binary64
import LowThrust.Proofs.Leg.Invariant

/-!
Assignments of single parts of a leg. An assignment looks at the part that it writes and, if this is
an epoch, at the other epoch; so assignments of different parts commute, those of the two epochs
apart. Two new epochs may have to be assigned in one order and not in the other, but one of the
orders succeeds, and it leads where a setup leads.
-/

namespace LowThrust

/-- What is assigned by itself. -/
inductive LegPart where
  | startEpoch
  | startState
  | finalEpoch
  | finalState
  | spacecraft
  | mu
  | highFidelity
  | throttles

namespace LegPart

def Value (α : Type) : LegPart → Type
  | startEpoch | finalEpoch => Option (Epoch α)
  | startState | finalState => Option (State α)
  | spacecraft => Option (Spacecraft α)
  | mu => Option α
  | highFidelity => Bool
  | throttles => List (ThrottleSegment α)

/-- Parts that differ, and are not the two epochs, which are compared with each other. -/
structure Independent (p q : LegPart) : Prop where
  ne : p ≠ q
  not_start_final : ¬ (p = startEpoch ∧ q = finalEpoch)
  not_final_start : ¬ (p = finalEpoch ∧ q = startEpoch)

theorem Independent.symm {p q : LegPart} (h : p.Independent q) : q.Independent p where
  ne := h.ne.symm
  not_start_final := fun eq => h.not_final_start eq.symm
  not_final_start := fun eq => h.not_start_final eq.symm

end LegPart

variable {α : Type}

namespace Leg

def part (leg : Leg α) : (p : LegPart) → p.Value α
  | .startEpoch => leg.startEpoch
  | .startState => leg.startState
  | .finalEpoch => leg.finalEpoch
  | .finalState => leg.finalState
  | .spacecraft => leg.spacecraft
  | .mu => leg.mu
  | .highFidelity => leg.highFidelity
  | .throttles => leg.throttles

/-- The leg with one part written. -/
def withPart (leg : Leg α) : (p : LegPart) → p.Value α → Leg α
  | .startEpoch, t => { leg with startEpoch := t }
  | .startState, s => { leg with startState := s }
  | .finalEpoch, t => { leg with finalEpoch := t }
  | .finalState, s => { leg with finalState := s }
  | .spacecraft, sc => { leg with spacecraft := sc }
  | .mu, mu => { leg with mu := mu }
  | .highFidelity, flag => { leg with highFidelity := flag }
  | .throttles, throttles => { leg with throttles := throttles }

/-- The leg with both epochs written. -/
def withEpochs (leg : Leg α) (start final : Epoch α) : Leg α :=
  { leg with startEpoch := some start, finalEpoch := some final }

/-- The setup that gives the leg new epochs. The spacecraft and the mode it keeps by leaving them
out. -/
def setupAt (leg : Leg α) (mu : α) (start final : Epoch α) : LegSetup α where
  startEpoch := some start
  startState := leg.startState
  throttles := .ok leg.throttles
  finalEpoch := some final
  finalState := leg.finalState
  mu := mu

variable {p q : LegPart}

theorem withPart_comm (h : p ≠ q) (leg : Leg α) (v : p.Value α) (w : q.Value α) :
    (leg.withPart p v).withPart q w = (leg.withPart q w).withPart p v := by
  cases p <;> cases q <;> first | rfl | exact absurd rfl h

theorem part_withPart_of_ne (h : p ≠ q) (leg : Leg α) (w : q.Value α) :
    (leg.withPart q w).part p = leg.part p := by
  cases p <;> cases q <;> first | rfl | exact absurd rfl h

end Leg

namespace LegCommand

/-- The part that an assignment writes. A setup and a document write all of them. -/
def part? : LegCommand α → Option LegPart
  | setStartEpoch _ => some .startEpoch
  | setStartState _ => some .startState
  | setFinalEpoch _ => some .finalEpoch
  | setFinalState _ => some .finalState
  | setSpacecraft _ => some .spacecraft
  | setMu _ => some .mu
  | setHighFidelity _ => some .highFidelity
  | setThrottles _ | resize _ | setThrottle _ _ => some .throttles
  | configure _ | load _ | reload => none

variable [Scalar α] [DecimalText α] {c d : LegCommand α} {p q : LegPart} {leg after : Leg α}

/-! ### Independent parts -/

/-- An assignment writes its part and no other. -/
theorem exists_withPart (hc : c.part? = some p) (h : c.written leg = .ok after) :
    ∃ v, after = leg.withPart p v := by
  cases c with
  | setStartEpoch t | setFinalEpoch t =>
    cases hc
    obtain ⟨_, -, h⟩ := bind_eq_ok_iff.mp h
    cases h
    exact ⟨t, rfl⟩
  | setMu mu =>
    cases hc
    obtain ⟨_, -, h⟩ := bind_eq_ok_iff.mp h
    cases h
    exact ⟨some mu, rfl⟩
  | setThrottles source =>
    cases hc
    obtain ⟨throttles, -, h⟩ := bind_eq_ok_iff.mp h
    cases h
    exact ⟨throttles, rfl⟩
  | resize size =>
    cases hc
    simp only [written] at h
    split at h
    · cases h
    · cases h
      exact ⟨_, rfl⟩
  | setThrottle index segment =>
    cases hc
    simp only [written] at h
    split at h
    · cases h
      exact ⟨_, rfl⟩
    · cases h
  | setStartState v | setFinalState v | setSpacecraft v | setHighFidelity v =>
    cases hc
    cases h
    exact ⟨v, rfl⟩
  | configure | load | reload => cases hc

/-- It does not read the parts that are independent of its own. -/
theorem written_withPart (hc : c.part? = some p) (h : p.Independent q) (leg : Leg α)
    (w : q.Value α) :
    c.written (leg.withPart q w) = (c.written leg).map fun after => after.withPart q w := by
  cases c with
  | setStartEpoch t =>
    cases hc
    -- the epoch it is compared with is kept, as `q` is not that epoch
    have kept : (leg.withPart q w).finalEpoch = leg.finalEpoch :=
      Leg.part_withPart_of_ne (p := .finalEpoch) (fun eq => h.not_start_final ⟨rfl, eq.symm⟩) leg w
    have judged := congrArg (Leg.checkEpochs t) kept
    simp only [written, judged]
    cases Leg.checkEpochs t leg.finalEpoch with
    | error => rfl
    | ok => exact congrArg Except.ok (Leg.withPart_comm h.ne leg t w).symm
  | setFinalEpoch t =>
    cases hc
    have kept : (leg.withPart q w).startEpoch = leg.startEpoch :=
      Leg.part_withPart_of_ne (p := .startEpoch) (fun eq => h.not_final_start ⟨rfl, eq.symm⟩) leg w
    have judged := congrArg (Leg.checkEpochs · t) kept
    simp only [written, judged]
    cases Leg.checkEpochs leg.startEpoch t with
    | error => rfl
    | ok => exact congrArg Except.ok (Leg.withPart_comm h.ne leg t w).symm
  | setMu mu =>
    cases hc
    simp only [written]
    cases Leg.checkMu mu with
    | error => rfl
    | ok => exact congrArg Except.ok (Leg.withPart_comm h.ne leg (some mu) w).symm
  | setThrottles source =>
    cases hc
    cases source with
    | error => rfl
    | ok throttles => exact congrArg Except.ok (Leg.withPart_comm h.ne leg throttles w).symm
  | resize size =>
    cases hc
    have kept : (leg.withPart q w).throttles = leg.throttles :=
      Leg.part_withPart_of_ne (p := .throttles) h.ne leg w
    simp only [written, kept]
    split
    · rfl
    · exact congrArg Except.ok (Leg.withPart_comm h.ne leg _ w).symm
  | setThrottle index segment =>
    cases hc
    have kept : (leg.withPart q w).throttles = leg.throttles :=
      Leg.part_withPart_of_ne (p := .throttles) h.ne leg w
    simp only [written, kept]
    split
    · exact congrArg Except.ok (Leg.withPart_comm h.ne leg _ w).symm
    · rfl
  | setStartState v | setFinalState v | setSpacecraft v | setHighFidelity v =>
    cases hc
    exact congrArg Except.ok (Leg.withPart_comm h.ne leg v w).symm
  | configure | load | reload => cases hc

theorem run_of_part (hc : c.part? = some p) (leg : Leg α) :
    c.run leg = match c.written leg with
      | .error fault => (.error fault, leg)
      | .ok after => (.ok (), after) := by
  rw [run_eq]
  cases c with
  | configure | load | reload => cases hc
  | _ => rfl

theorem run_withPart (hc : c.part? = some p) (h : p.Independent q) (leg : Leg α)
    (w : q.Value α) :
    c.run (leg.withPart q w) = ((c.run leg).1, (c.run leg).2.withPart q w) := by
  rw [run_of_part hc, run_of_part hc, written_withPart hc h]
  cases c.written leg <;> rfl

theorem run_cases (hc : c.part? = some p) (leg : Leg α) :
    (∃ fault, c.run leg = (.error fault, leg)) ∨ ∃ v, c.run leg = (.ok (), leg.withPart p v) := by
  rw [run_of_part hc]
  cases h : c.written leg with
  | error fault => exact .inl ⟨fault, rfl⟩
  | ok after =>
    obtain ⟨v, rfl⟩ := exists_withPart hc h
    exact .inr ⟨v, rfl⟩

/-- What becomes of an assignment does not depend on whether an independent part is assigned
before. -/
theorem fst_run_run (hc : c.part? = some p) (hd : d.part? = some q) (h : p.Independent q)
    (leg : Leg α) : (c.run (d.run leg).2).1 = (c.run leg).1 := by
  obtain ⟨_, refused⟩ | ⟨w, writes⟩ := run_cases hd leg
  · rw [refused]
  · rw [writes, run_withPart hc h]

/-- Nor does the leg depend on the order, whether the assignments succeed or not. -/
theorem snd_run_run (hc : c.part? = some p) (hd : d.part? = some q) (h : p.Independent q)
    (leg : Leg α) : (d.run (c.run leg).2).2 = (c.run (d.run leg).2).2 := by
  obtain ⟨_, refused⟩ | ⟨v, writes⟩ := run_cases hc leg
  · obtain ⟨_, refused'⟩ | ⟨w, writes'⟩ := run_cases hd leg
    · rw [refused, refused', refused]
    · rw [refused, writes', run_withPart hc h, refused]
  · obtain ⟨_, refused'⟩ | ⟨w, writes'⟩ := run_cases hd leg
    · rw [writes, refused', run_withPart hd h.symm, refused', writes]
    · rw [writes, writes', run_withPart hd h.symm, run_withPart hc h, writes, writes']
      exact (Leg.withPart_comm h.ne leg v w).symm

/-- Both commands succeed, one after the other. -/
def Completes (c d : LegCommand α) (leg after : Leg α) : Prop :=
  ∃ between, c.run leg = (.ok (), between) ∧ d.run between = (.ok (), after)

theorem completes_iff : Completes c d leg after ↔
    (c.run leg).1 = .ok () ∧ d.run (c.run leg).2 = (.ok (), after) := by
  constructor
  · rintro ⟨between, first, second⟩
    rw [first]
    exact ⟨rfl, second⟩
  · rintro ⟨first, second⟩
    exact ⟨_, Prod.ext first rfl, second⟩

theorem completes_iff_of_independent (hc : c.part? = some p) (hd : d.part? = some q)
    (h : p.Independent q) : Completes c d leg after ↔
      (c.run leg).1 = .ok () ∧ (d.run leg).1 = .ok () ∧ (d.run (c.run leg).2).2 = after := by
  rw [completes_iff, Prod.ext_iff, fst_run_run hd hc h.symm]

theorem completes_comm (hc : c.part? = some p) (hd : d.part? = some q) (h : p.Independent q) :
    Completes c d leg after ↔ Completes d c leg after := by
  rw [completes_iff_of_independent hc hd h, completes_iff_of_independent hd hc h.symm,
    snd_run_run hc hd h]
  exact and_left_comm

/-! ### The two epochs -/

variable {start final start' final' : Epoch α}

theorem run_setStartEpoch (hf : leg.finalEpoch = some final) :
    (setStartEpoch (some start')).run leg =
      if final ≤ start' then (.error (.configuration (.epochOrder start' final)), leg)
      else (.ok (), { leg with startEpoch := some start' }) := by
  have judged : Leg.checkEpochs (some start') leg.finalEpoch =
      if final ≤ start' then .error (.configuration (.epochOrder start' final)) else .ok () := by
    rw [hf]
    rfl
  rw [run_eq, written, judged]
  by_cases late : final ≤ start'
  · simp only [late, if_true]
    rfl
  · simp only [late, if_false]
    rfl

theorem run_setFinalEpoch (hs : leg.startEpoch = some start) :
    (setFinalEpoch (some final')).run leg =
      if final' ≤ start then (.error (.configuration (.epochOrder start final')), leg)
      else (.ok (), { leg with finalEpoch := some final' }) := by
  have judged : Leg.checkEpochs leg.startEpoch (some final') =
      if final' ≤ start then .error (.configuration (.epochOrder start final')) else .ok () := by
    rw [hs]
    rfl
  rw [run_eq, written, judged]
  by_cases early : final' ≤ start
  · simp only [early, if_true]
    rfl
  · simp only [early, if_false]
    rfl

/-- The first epoch can be assigned before the final one if it stays before the old final one. -/
theorem completes_start_final_iff (hf : leg.finalEpoch = some final) (h : ¬ final' ≤ start') :
    Completes (setStartEpoch (some start')) (setFinalEpoch (some final')) leg after ↔
      ¬ final ≤ start' ∧ after = leg.withEpochs start' final' := by
  rw [Completes, run_setStartEpoch hf]
  by_cases late : final ≤ start'
  · simp [late]
  · have second : (setFinalEpoch (some final')).run { leg with startEpoch := some start' } =
        (.ok (), leg.withEpochs start' final') := by
      rw [run_setFinalEpoch rfl, if_neg h]
      rfl
    simp [late, second, eq_comm]

/-- And after the final one if that comes after the old first one. -/
theorem completes_final_start_iff (hs : leg.startEpoch = some start) (h : ¬ final' ≤ start') :
    Completes (setFinalEpoch (some final')) (setStartEpoch (some start')) leg after ↔
      ¬ final' ≤ start ∧ after = leg.withEpochs start' final' := by
  rw [Completes, run_setFinalEpoch hs]
  by_cases early : final' ≤ start
  · simp [early]
  · have second : (setStartEpoch (some start')).run { leg with finalEpoch := some final' } =
        (.ok (), leg.withEpochs start' final') := by
      rw [run_setStartEpoch rfl, if_neg h]
      rfl
    simp [early, second, eq_comm]

theorem run_configure_setupAt {mu : α} (hmu : leg.mu = some mu) (positive : mu > 0.0)
    (h : ¬ final' ≤ start') :
    (configure (leg.setupAt mu start' final')).run leg =
      (.ok (), leg.withEpochs start' final') := by
  have judged : Leg.checkEpochs (some start') (some final') = .ok () := if_neg h
  have writes : leg.setUp (leg.setupAt mu start' final') = .ok (leg.withEpochs start' final') := by
    refine Leg.setUp_eq_ok_iff.mpr ⟨judged, (Leg.checkMu_eq_ok_iff mu).mpr positive, _, rfl, ?_⟩
    rw [Leg.withSetup, Leg.setupAt, Leg.withEpochs, ← hmu]
    rfl
  rw [run_eq, written, writes]
  rfl

/-- Two windows of time do not each begin after the other one has ended. -/
theorem not_le_or_not_le {start final start' final' : Epoch Float} (h : start < final)
    (h' : start' < final') : ¬ final ≤ start' ∨ ¬ final' ≤ start := by
  by_contra both
  obtain ⟨after, before⟩ := not_or.mp both
  have after := (Binary64.le_iff_rank.mp (not_not.mp after)).2.2
  have before := (Binary64.le_iff_rank.mp (not_not.mp before)).2.2
  have window := (Binary64.lt_iff_rank.mp h).2.2
  have window' := (Binary64.lt_iff_rank.mp h').2.2
  exact absurd (after.trans_lt (window'.trans_le before)) window.asymm

/-- New epochs can be assigned in one order at least. In an order that fails the first assignment is
refused already, and every order that succeeds leads to the leg that a setup gives. All other
assignments of different parts commute. -/
theorem epochs_reassigned {leg : Leg Float}
    (reached : ∃ config commands, leg = runAll (.empty config) commands)
    {start final : Epoch Float} (hs : leg.startEpoch = some start)
    (hf : leg.finalEpoch = some final) {mu : Float} (hmu : leg.mu = some mu)
    (numbers : ¬ start.mjd2000.isNaN ∧ ¬ final.mjd2000.isNaN)
    {start' final' : Epoch Float} (h : start' < final') :
    let setStart := setStartEpoch (some start')
    let setFinal := setFinalEpoch (some final')
    let orders := [(setStart, setFinal), (setFinal, setStart)]
    (∃ o ∈ orders, ∃ after, Completes o.1 o.2 leg after) ∧
      (∀ o ∈ orders, (¬ ∃ after, Completes o.1 o.2 leg after) →
        ∃ s f, o.1.run leg = (.error (.configuration (.epochOrder s f)), leg)) ∧
      (∀ o ∈ orders, ∀ after, Completes o.1 o.2 leg after →
        after = leg.withEpochs start' final' ∧
          (configure (leg.setupAt mu start' final')).run leg = (.ok (), after)) ∧
      ∀ (leg : Leg Float) (c d : LegCommand Float) (p q : LegPart), c.part? = some p →
        d.part? = some q → p.Independent q →
          ((∃ after, Completes c d leg after) ↔ (c.run leg).1 = .ok () ∧ (d.run leg).1 = .ok ()) ∧
          ∀ after, Completes c d leg after ↔ Completes d c leg after := by
  intro setStart setFinal orders
  obtain ⟨config, commands, rfl⟩ := reached
  have sound : (runAll (.empty config) commands).Sound :=
    sound_runAll (Leg.sound_empty config) commands
  have window := (Binary64.lt_iff_of_not_le (sound.epochs start final hs hf)).mpr numbers
  have window' : ¬ final' ≤ start' := fun le =>
    (Binary64.lt_iff_rank.mp h).2.2.not_ge (Binary64.le_iff_rank.mp le).2.2
  have startFirst (after : Leg Float) : Completes setStart setFinal _ after ↔ _ :=
    completes_start_final_iff hf window'
  have finalFirst (after : Leg Float) : Completes setFinal setStart _ after ↔ _ :=
    completes_final_start_iff hs window'
  have bulk := run_configure_setupAt hmu (sound.gravity mu hmu) window'
  refine ⟨?_, fun o ho failing => ?_, fun o ho after completes => ?_,
    fun leg c d p q hc hd independent => ⟨?_, fun after => completes_comm hc hd independent⟩⟩
  · rcases not_le_or_not_le window h with early | late
    · exact ⟨_, .head _, _, (startFirst _).mpr ⟨early, rfl⟩⟩
    · exact ⟨_, .tail _ (.head _), _, (finalFirst _).mpr ⟨late, rfl⟩⟩
  · rcases List.mem_pair.mp ho with rfl | rfl
    · have late : final ≤ start' := by
        by_contra early
        exact failing ⟨_, (startFirst _).mpr ⟨early, rfl⟩⟩
      exact ⟨_, _, (run_setStartEpoch hf).trans (if_pos late)⟩
    · have early : final' ≤ start := by
        by_contra late
        exact failing ⟨_, (finalFirst _).mpr ⟨late, rfl⟩⟩
      exact ⟨_, _, (run_setFinalEpoch hs).trans (if_pos early)⟩
  · have same : after = (runAll (.empty config) commands).withEpochs start' final' := by
      rcases List.mem_pair.mp ho with rfl | rfl
      · exact ((startFirst after).mp completes).2
      · exact ((finalFirst after).mp completes).2
    exact ⟨same, same ▸ bulk⟩
  · simp only [completes_iff_of_independent hc hd independent, exists_and_left,
      exists_eq', and_true]

/-- A later window, whose final epoch has to be assigned first. -/
theorem epochs_reassigned_later :
    let leg : Leg Float := runAll (.empty .default) [.setStartEpoch (some ⟨1000.0⟩),
      .setFinalEpoch (some ⟨1200.0⟩), .setMu 1.0]
    let setStart : LegCommand Float := .setStartEpoch (some ⟨1250.0⟩)
    let setFinal : LegCommand Float := .setFinalEpoch (some ⟨1300.0⟩)
    let after := leg.withEpochs ⟨1250.0⟩ ⟨1300.0⟩
    (∃ s f, setStart.run leg = (.error (.configuration (.epochOrder s f)), leg)) ∧
      Completes setFinal setStart leg after ∧
      (configure (leg.setupAt 1.0 ⟨1250.0⟩ ⟨1300.0⟩)).run leg = (.ok (), after) ∧
      ∃ after, Completes (.setMu 2.0) (.setHighFidelity true) leg after ∧
        Completes (.setHighFidelity true) (.setMu 2.0) leg after := by
  intro leg setStart setFinal after
  have hs : leg.startEpoch = some ⟨1000.0⟩ := by decide
  have hf : leg.finalEpoch = some ⟨1200.0⟩ := by decide
  have hmu : leg.mu = some 1.0 := by decide
  have window : (⟨1250.0⟩ : Epoch Float) < ⟨1300.0⟩ := by decide
  obtain ⟨⟨o, ho, after', completes⟩, refused, bulk, independent⟩ :=
    epochs_reassigned ⟨_, _, rfl⟩ hs hf hmu ⟨by decide, by decide⟩ window
  have fails : ¬ ∃ after, Completes setStart setFinal leg after := by
    rintro ⟨after, completes⟩
    have late : (⟨1200.0⟩ : Epoch Float) ≤ ⟨1250.0⟩ := by decide
    exact ((completes_start_final_iff hf (by decide)).mp completes).1 late
  have positive : Leg.checkMu (2.0 : Float) = .ok () :=
    (Leg.checkMu_eq_ok_iff (2.0 : Float)).mpr (by decide)
  have sets : ((setMu (2.0 : Float)).run leg).1 = .ok () := by
    rw [run_eq, written, positive]
    rfl
  have apart : LegPart.mu.Independent .highFidelity := by constructor <;> simp
  obtain ⟨some_order, commute⟩ := independent leg (.setMu 2.0) (.setHighFidelity true) .mu
    .highFidelity rfl rfl apart
  obtain ⟨both, completes'⟩ := some_order.mpr ⟨sets, rfl⟩
  obtain rfl | rfl := List.mem_pair.mp ho
  · exact absurd ⟨after', completes⟩ fails
  · obtain ⟨rfl, setup⟩ := bulk _ ho _ completes
    exact ⟨refused _ (.head _) fails, completes, setup, both, completes',
      (commute both).mp completes'⟩

end LegCommand

end LowThrust
