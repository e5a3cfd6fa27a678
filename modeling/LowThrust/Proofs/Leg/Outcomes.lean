import LowThrust.Proofs.Binary64.Range
import LowThrust.Proofs.Faults
import LowThrust.Proofs.Leg.Layout

/-!
What may become of a document: it is read as a complete leg that has passed its checks, it is
complained about, or it has an integer that is too large where a number is read.
-/

namespace LowThrust

variable {α : Type}

/-! ### Arrays of numbers -/

namespace Json

/-- The entries of nested arrays; what is no array is its own. -/
inductive HasEntry : Json α → Json α → Prop
  | self (j : Json α) : HasEntry j j
  | item {items : List (Json α)} {item entry : Json α} :
      item ∈ items → HasEntry item entry → HasEntry (.arr items) entry

variable [Scalar α] [DecimalText α] {R : Json α → Prop} {j : Json α}

/-- If an integer is said to be too large, there is one in a place of the given kind. -/
def Blames (R : Json α → Prop) (fault : NumberFault) : Prop :=
  fault = .tooLarge → ∃ n, R (.int n) ∧ (DecimalText.ofInt? n : Option α) = none

omit [Scalar α] in
theorem blames_of_ne {fault : NumberFault} (h : fault ≠ .tooLarge) : Blames R fault :=
  fun large => absurd large h

theorem toNumber_failsOnly (h : R j) : FailsOnly (Blames R) j.toNumber := by
  cases j with
  | bool => exact .ok _
  | real => exact .ok _
  | int n =>
    rw [toNumber]
    split
    · exact .ok _
    · next none => exact .error fun _ => ⟨n, h, none⟩
  | str s =>
    rw [toNumber]
    split
    · exact .ok _
    · exact .error (blames_of_ne (by decide))
  | null | arr | obj => exact .error (blames_of_ne (by decide))

theorem toEntry_failsOnly (h : R j) : FailsOnly (Blames R) j.toEntry := by
  cases j with
  | null => exact .ok _
  | bool | int | real | str | arr | obj => exact toNumber_failsOnly h

theorem entries_failsOnly_of_not_isArray (h : ¬ j.IsArray)
    (hr : ∀ entry, j.HasEntry entry → R entry) : FailsOnly (Blames R) j.entries := by
  rw [entries_of_not_isArray h]
  exact .bind (toEntry_failsOnly (hr j (.self j))) fun _ => .ok _

-- Arrays are nested in lists of arrays, so that the induction is on both at once.
mutual

theorem entries_failsOnly : ∀ j : Json α, (∀ entry, j.HasEntry entry → R entry) →
    FailsOnly (Blames R) j.entries
  | .arr items => fun hr =>
    itemEntries_failsOnly items fun _ mem entry has => hr entry (.item mem has)
  | .null | .bool _ | .int _ | .real _ | .str _ | .obj _ =>
    entries_failsOnly_of_not_isArray (by rintro ⟨_, ⟨⟩⟩)

theorem itemEntries_failsOnly : ∀ items : List (Json α),
    (∀ item ∈ items, ∀ entry, item.HasEntry entry → R entry) →
      FailsOnly (Blames R) (itemEntries items)
  | [] => fun _ => .ok _
  | item :: items => fun hr => by
    refine .bind (entries_failsOnly item (hr item List.mem_cons_self)) fun _ => ?_
    refine .bind (itemEntries_failsOnly items fun next mem => ?_) fun _ => .ok _
    exact hr next (List.mem_cons_of_mem item mem)

end

theorem toTensor_failsOnly (hr : ∀ entry, j.HasEntry entry → R entry) :
    FailsOnly (Blames R) j.toTensor := by
  rw [toTensor]
  split
  · exact .error (blames_of_ne (by decide))
  · split
    · exact .error (blames_of_ne (by decide))
    · exact .bind (entries_failsOnly j hr) fun _ => .ok _

end Json

/-! ### Documents -/

namespace Leg.Document

/-- The places of a segment at which a number is read. -/
inductive SegmentHasNumber (j : Json α) : Json α → Prop
  | epoch {name : String} {value : Json α} :
      name ∈ ["start", "end"] → j.HasMember name value → SegmentHasNumber j value
  | component {array entry : Json α} :
      j.HasMember "value" array → array.HasEntry entry → SegmentHasNumber j entry

/-- The places of a document at which a number is read. -/
inductive HasNumber (document : Json α) : Json α → Prop
  | member {name : String} {value : Json α} :
      name ∈ ["t_i", "t_f", "mu"] → document.HasMember name value → HasNumber document value
  | component {name : String} {array entry : Json α} :
      name ∈ ["x_i", "x_f"] → document.HasMember name array → array.HasEntry entry →
        HasNumber document entry
  | spacecraft {name : String} {sc value : Json α} :
      document.HasMember "spacecraft" sc → name ∈ ["mass", "thrust", "isp"] →
        sc.HasMember name value → HasNumber document value
  | segment {items : List (Json α)} {item value : Json α} :
      document.HasMember "throttles" (.arr items) → item ∈ items → SegmentHasNumber item value →
        HasNumber document value

section Complaints

variable [DecimalText α] {R : Json α → Prop} {j : Json α} {name : String}

/-- A complaint, or an integer that is too large in a place of the given kind. -/
def Complains (R : Json α → Prop) (fault : Fault α) : Prop :=
  fault.IsMisconfiguration ∨
    fault = .number .tooLarge ∧ ∃ n, R (.int n) ∧ (DecimalText.ofInt? n : Option α) = none

theorem complains_configuration (cause : Misconfiguration α) : Complains R (.configuration cause) :=
  .inl ⟨cause, rfl⟩

theorem complains_numberFault {fault : NumberFault} (h : Json.Blames R fault) :
    Complains R (numberFault fault) := by
  cases fault with
  | tooLarge => exact .inr ⟨rfl, h rfl⟩
  | wrongKind | notANumber | ragged | tooManyAxes => exact complains_configuration _

theorem member_failsOnly (name : String) (j : Json α) :
    FailsOnly (Complains R) (member name j) := by
  cases j with
  | obj members =>
    rw [member]
    split
    · exact .ok _
    · exact .error (complains_configuration _)
  | null | bool | int | real | str | arr => exact .error (complains_configuration _)

theorem toVec3_failsOnly (quantity : Quantity) (t : Tensor α) :
    FailsOnly (Complains R) (t.toVec3 quantity) := by
  rw [Tensor.toVec3]
  split
  · exact .ok _
  · exact .error (complains_configuration _)

theorem ofTensor_failsOnly (t : Tensor α) : FailsOnly (Complains R) (State.ofTensor t) := by
  simp only [State.ofTensor]
  split
  · split
    · exact .ok _
    · exact .error (complains_configuration _)
  · exact .error (complains_configuration _)

variable [Scalar α]

theorem number_failsOnly (hr : ∀ value, j.HasMember name value → R value) :
    FailsOnly (Complains R) (number name j) := by
  refine .bind_of_ok (member_failsOnly name j) fun value member => ?_
  refine (Json.toNumber_failsOnly ?_).mapError fun _ => complains_numberFault
  exact hr value (member_eq_ok_iff.mp member)

theorem epoch_failsOnly (hr : ∀ value, j.HasMember name value → R value) :
    FailsOnly (Complains R) (epoch name j) :=
  .bind (number_failsOnly hr) fun _ => .ok _

theorem tensor_failsOnly (hr : ∀ entry, j.HasEntry entry → R entry) :
    FailsOnly (Complains R) (tensor j) :=
  (Json.toTensor_failsOnly hr).mapError fun _ => complains_numberFault

theorem state_failsOnly
    (hr : ∀ array, j.HasMember name array → ∀ entry, array.HasEntry entry → R entry) :
    FailsOnly (Complains R) (state name j) := by
  refine .bind_of_ok (member_failsOnly name j) fun array member => ?_
  refine .bind (tensor_failsOnly (hr array (member_eq_ok_iff.mp member))) ?_
  exact ofTensor_failsOnly

theorem segment_failsOnly (hr : ∀ value, SegmentHasNumber j value → R value) :
    FailsOnly (Complains R) (segment j) := by
  refine .bind (epoch_failsOnly fun value has => hr value (.epoch (by simp) has)) fun start => ?_
  refine .bind (epoch_failsOnly fun value has => hr value (.epoch (by simp) has)) fun final => ?_
  refine .bind_of_ok (member_failsOnly _ j) fun array member => ?_
  refine .bind (tensor_failsOnly fun entry has => ?_) fun t => ?_
  · exact hr entry (.component (member_eq_ok_iff.mp member) has)
  · exact .bind (toVec3_failsOnly _ t) fun _ => .ok _

theorem segments_failsOnly
    (hr : ∀ items, j = .arr items → ∀ item ∈ items, ∀ value,
      SegmentHasNumber item value → R value) :
    FailsOnly (Complains R) (segments j) := by
  cases j with
  | arr items => exact .mapM fun item mem => segment_failsOnly (hr items rfl item mem)
  | obj members =>
    cases members with
    | nil => exact .ok _
    | cons => exact .error (complains_configuration _)
  | str s =>
    cases s with
    | nil => exact .ok _
    | cons => exact .error (complains_configuration _)
  | null | bool | int | real => exact .error (complains_configuration _)

theorem spacecraft_failsOnly
    (hr : ∀ name ∈ ["mass", "thrust", "isp"], ∀ value, j.HasMember name value → R value) :
    FailsOnly (Complains R) (spacecraft j) := by
  refine .bind (number_failsOnly (hr "mass" (by simp))) fun mass => ?_
  refine .bind (number_failsOnly (hr "thrust" (by simp))) fun thrust => ?_
  exact .bind (number_failsOnly (hr "isp" (by simp))) fun isp => .ok _

theorem setup_failsOnly (members : List (List Nat × Json α)) :
    FailsOnly (Complains (HasNumber (.obj members))) (setup members) := by
  have epoch (name : String) (h : name ∈ ["t_i", "t_f", "mu"]) :
      FailsOnly (Complains (HasNumber (.obj members))) (epoch name (.obj members)) :=
    epoch_failsOnly fun _ member => .member h member
  have state (name : String) (h : name ∈ ["x_i", "x_f"]) :
      FailsOnly (Complains (HasNumber (.obj members))) (state name (.obj members)) :=
    state_failsOnly fun _ member _ has => .component h member has
  refine .bind_of_ok (member_failsOnly _ _) fun j listed => ?_
  refine .bind (segments_failsOnly fun items array item mem value has => ?_) fun throttles => ?_
  · subst array
    exact .segment (member_eq_ok_iff.mp listed) mem has
  refine .bind_of_ok (member_failsOnly _ _) fun sc craft => ?_
  refine .bind (spacecraft_failsOnly fun name h value has => ?_) fun spacecraft => ?_
  · exact .spacecraft (member_eq_ok_iff.mp craft) h has
  refine .bind (epoch "t_i" (by simp)) fun start => ?_
  refine .bind (epoch "t_f" (by simp)) fun final => ?_
  refine .bind (state "x_i" (by simp)) fun x => ?_
  refine .bind (state "x_f" (by simp)) fun y => ?_
  exact .bind (number_failsOnly fun _ member => .member (by simp) member) fun mu => .ok _

end Complaints

end Leg.Document

/-! ### Legs -/

namespace Leg

section Checks

variable [Scalar α]

theorem checkEpochs_failsOnly (start final : Option (Epoch α)) :
    FailsOnly Fault.IsMisconfiguration (checkEpochs start final) := by
  unfold checkEpochs
  split
  · split
    · exact .error ⟨_, rfl⟩
    · exact .ok _
  · exact .ok _

theorem checkMu_failsOnly (mu : α) : FailsOnly Fault.IsMisconfiguration (checkMu mu) := by
  unfold checkMu
  split
  · exact .ok _
  · exact .error ⟨_, rfl⟩

theorem setUp_failsOnly {s : LegSetup α} {throttles : List (ThrottleSegment α)}
    (h : s.throttles = .ok throttles) (leg : Leg α) :
    FailsOnly Fault.IsMisconfiguration (leg.setUp s) := by
  refine .bind (checkEpochs_failsOnly _ _) fun _ => ?_
  refine .bind (checkMu_failsOnly _) fun _ => ?_
  rw [h]
  exact .ok _

variable [DecimalText α]

theorem ofJson_failsOnly (config : PropagationConfig α) (document : Json α) :
    FailsOnly (Document.Complains (Document.HasNumber document)) (ofJson config document) := by
  cases document with
  | obj members =>
    simp only [ofJson]
    split
    · refine .bind_of_ok (Document.setup_failsOnly members) fun s found => ?_
      obtain ⟨t, -, -, -, rfl⟩ := (Document.setup_eq_ok_iff config).mp found
      rw [run_configure]
      -- Both epochs are set, so that there is a time of flight.
      cases set : (empty config).setUp _ with
      | error fault => exact .error (.inl (setUp_failsOnly rfl (empty config) fault set))
      | ok leg => exact .ok _
    · exact .error (Document.complains_configuration _)
  | null | bool | int | real | str | arr => exact .error (Document.complains_configuration _)

end Checks

/-- A document is accepted if it describes a leg that passes the checks. -/
theorem exists_ofJson_iff [Scalar α] [DecimalText α] (config : PropagationConfig α)
    (document : Json α) :
    (∃ leg, ofJson config document = .ok leg) ↔
      document.Holds "version" (Document.isSupported · = true) ∧
        ∃ t, Document.Describes Json.TakesSegments document t ∧ t.toLeg.Sound := by
  classical
  simp only [ofJson_eq_ok_iff]
  constructor
  · rintro ⟨_, version, t, described, -, -, sound, -⟩
    exact ⟨version, t, described, sound⟩
  · rintro ⟨version, t, described, sound⟩
    -- Neither the settings nor the mode of the leg are part of the description.
    let set : Transfer α :=
      { t with config, highFidelity := decide (document.Holds "high_fidelity" (·.isTruthy = true)) }
    have described' : Document.Describes Json.TakesSegments document set :=
      ⟨described.startEpoch, described.startState, described.throttles, described.finalEpoch,
        described.finalState, described.spacecraft, described.gravity⟩
    exact ⟨set.toLeg, version, set, described', rfl, decide_eq_true_iff,
      ⟨sound.epochs, sound.gravity⟩, rfl⟩

theorem isSet_toLeg (t : Transfer α) (field : LegField) : t.toLeg.isSet field = true := by
  cases field <;> rfl

/-- A document is read as a complete leg with the given settings that has passed its checks, or it
is complained about, or an integer that is too large stands where a number is read. It is read if
it describes a leg that passes the checks. -/
theorem ofJson_outcomes (config : PropagationConfig Float) (document : Json Float) :
    ((∃ leg, ofJson config document = .ok leg ∧ (∀ field, leg.isSet field = true) ∧
      (∀ mu, leg.mu = some mu → mu > 0.0) ∧
        (∀ s f, leg.startEpoch = some s → leg.finalEpoch = some f → ¬ f ≤ s) ∧
          leg.config = config) ∨
      (∃ cause, ofJson config document = .error (.configuration cause)) ∨
        ofJson config document = .error (.number .tooLarge) ∧
          ∃ n, Document.HasNumber document (.int n) ∧ 2 ^ 1024 - 2 ^ 970 ≤ n.natAbs) ∧
      ((∃ leg, ofJson config document = .ok leg) ↔
        document.Holds "version" (Document.isSupported · = true) ∧
          ∃ t, Document.Describes Json.TakesSegments document t ∧ t.toLeg.Sound) := by
  refine ⟨?_, exists_ofJson_iff config document⟩
  cases outcome : ofJson config document with
  | ok leg =>
    obtain ⟨-, t, -, rfl, -, sound, rfl⟩ := ofJson_eq_ok_iff.mp outcome
    exact .inl ⟨_, rfl, isSet_toLeg t, sound.gravity, sound.epochs, rfl⟩
  | error fault =>
    right
    obtain ⟨cause, rfl⟩ | ⟨rfl, n, number, none⟩ := ofJson_failsOnly config document fault outcome
    · exact .inl ⟨cause, rfl⟩
    · exact .inr ⟨rfl, n, number, Binary64.overflow_le_of_ofInt? none⟩

end Leg

end LowThrust
