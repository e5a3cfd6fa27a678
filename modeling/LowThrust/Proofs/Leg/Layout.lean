import LowThrust.Proofs.Leg.Exchange

/-!
The layout of the documents that legs are read from: where each part of a leg is written. A list of
segments may also be something else that holds no items, and the value of a segment may be nested.
-/

namespace LowThrust

variable {α : Type}

theorem mapM_eq_ok_iff {ε β γ : Type} {f : β → Except ε γ} {bs : List β} {cs : List γ} :
    bs.mapM f = .ok cs ↔ List.Forall₂ (fun b c => f b = .ok c) bs cs := by
  induction bs generalizing cs with
  | nil => cases cs <;> simp [pure_eq_ok_iff]
  | cons b bs ih =>
    simp only [List.mapM_cons, bind_eq_ok_iff, pure_eq_ok_iff, ih]
    constructor
    · rintro ⟨c, first, cs, rest, rfl⟩
      exact .cons first rest
    · rintro (_ | ⟨first, rest⟩)
      exact ⟨_, first, _, rest, rfl⟩

theorem mapError_eq_ok_iff {ε ε' β : Type} {f : ε → ε'} {x : Except ε β} {b : β} :
    x.mapError f = .ok b ↔ x = .ok b := by
  cases x <;> simp [Except.mapError]

namespace Json

/-! ### Arrays -/

def IsArray (j : Json α) : Prop := ∃ items, j = .arr items

/-- An array of which no item is an array itself. -/
def IsFlat (j : Json α) : Prop := ∃ items, j = .arr items ∧ ∀ item ∈ items, ¬ item.IsArray

theorem shape?_eq_nil_iff (j : Json α) : j.shape? = some [] ↔ ¬ j.IsArray := by
  cases j <;> simp [shape?, IsArray]

theorem rowShape?_eq_nil_iff (items : List (Json α)) :
    rowShape? items = some [] ↔ ∀ item ∈ items, ¬ item.IsArray := by
  induction items with
  | nil => simp [rowShape?]
  | cons item items ih =>
    cases items with
    | nil => simp [rowShape?, shape?_eq_nil_iff]
    | cons next items =>
      rw [List.forall_mem_cons, ← ih, ← shape?_eq_nil_iff]
      simp only [rowShape?, Option.bind_eq_bind, Option.bind_eq_some_iff,
        Option.ite_none_right_eq_some, Option.some.injEq]
      constructor
      · rintro ⟨shape, first, _, others, rfl, rfl⟩
        exact ⟨first, others⟩
      · rintro ⟨first, others⟩
        exact ⟨_, first, _, others, rfl, rfl⟩

/-- The shape of an array that extends along one axis. -/
theorem shape?_eq_row_iff (j : Json α) (n : Nat) :
    j.shape? = some [n] ↔ ∃ items, j = .arr items ∧ items.length = n ∧
      ∀ item ∈ items, ¬ item.IsArray := by
  cases j with
  | arr items =>
    simp only [shape?, Option.map_eq_some_iff, List.cons.injEq, arr.injEq, exists_eq_left',
      ← rowShape?_eq_nil_iff]
    constructor
    · rintro ⟨_, rows, length, rfl⟩
      exact ⟨length, rows⟩
    · rintro ⟨length, rows⟩
      exact ⟨_, rows, length, rfl⟩
  | null | bool | int | real | str | obj => simp [shape?]

variable [Scalar α] [DecimalText α]

/-- The items are the numbers, in their order. -/
def Writes (j : Json α) (xs : List α) : Prop :=
  ∃ items, j = .arr items ∧ List.Forall₂ (fun item x => item.toEntry = .ok x) items xs

/-- The numbers are found in nested arrays of one shape, row by row. -/
def Flattens (j : Json α) (xs : List α) : Prop := ∃ shape, j.toTensor = .ok ⟨shape, xs⟩

theorem entries_of_not_isArray {j : Json α} (h : ¬ j.IsArray) :
    j.entries = do return [← j.toEntry] := by
  cases j with
  | arr items => exact absurd ⟨items, rfl⟩ h
  | null | bool | int | real | str | obj => rfl

theorem itemEntries_of_flat {items : List (Json α)} (flat : ∀ item ∈ items, ¬ item.IsArray) :
    itemEntries items = items.mapM toEntry := by
  induction items with
  | nil => rfl
  | cons item items ih =>
    rw [List.forall_mem_cons] at flat
    rw [itemEntries, List.mapM_cons, ih flat.2, entries_of_not_isArray flat.1]
    cases item.toEntry <;> rfl

theorem not_isArray_of_toEntry {j : Json α} {x : α} (h : j.toEntry = .ok x) : ¬ j.IsArray := by
  rintro ⟨items, rfl⟩
  cases h

theorem toTensor_eq_ok_iff {j : Json α} {t : Tensor α} :
    j.toTensor = .ok t ↔
      j.shape? = some t.shape ∧ t.shape.length ≤ axisLimit ∧ j.entries = .ok t.entries := by
  obtain ⟨shape, entries⟩ := t
  rw [toTensor]
  cases j.shape? with
  | none => simp
  | some found =>
    simp only [Option.some.injEq]
    by_cases few : axisLimit < found.length
    · simp only [few, if_true, reduceCtorEq, false_iff, not_and]
      rintro rfl few'
      omega
    · simp only [few, if_false, bind_eq_ok_iff, pure_eq_ok_iff, Tensor.mk.injEq]
      constructor
      · rintro ⟨_, read, rfl, rfl⟩
        exact ⟨rfl, not_lt.mp few, read⟩
      · rintro ⟨rfl, -, read⟩
        exact ⟨_, read, rfl, rfl⟩

/-- An array that extends along one axis is flat. -/
theorem toTensor_eq_row_iff (j : Json α) (n : Nat) (xs : List α) :
    j.toTensor = .ok ⟨[n], xs⟩ ↔ j.Writes xs ∧ xs.length = n := by
  simp only [toTensor_eq_ok_iff, shape?_eq_row_iff]
  constructor
  · rintro ⟨⟨items, rfl, length, flat⟩, -, read⟩
    rw [entries, itemEntries_of_flat flat, mapM_eq_ok_iff] at read
    exact ⟨⟨items, rfl, read⟩, read.length_eq.symm.trans length⟩
  · rintro ⟨⟨items, rfl, read⟩, length⟩
    have flat := ((List.forall₂_and_left items xs).mp
      (read.imp fun _ _ entry => ⟨not_isArray_of_toEntry entry, entry⟩)).1
    refine ⟨⟨items, rfl, read.length_eq.trans length, flat⟩, by simp [axisLimit], ?_⟩
    rw [entries, itemEntries_of_flat flat, mapM_eq_ok_iff]
    exact read

theorem writes_iff (j : Json α) (xs : List α) : j.Writes xs ↔ j.IsFlat ∧ j.Flattens xs := by
  constructor
  · intro written
    have row := (j.toTensor_eq_row_iff xs.length xs).mpr ⟨written, rfl⟩
    obtain ⟨items, array, -, flat⟩ := (j.shape?_eq_row_iff _).mp (toTensor_eq_ok_iff.mp row).1
    exact ⟨⟨items, array, flat⟩, _, row⟩
  · rintro ⟨⟨items, array, flat⟩, shape, read⟩
    have row := (j.shape?_eq_row_iff items.length).mpr ⟨items, array, rfl, flat⟩
    obtain rfl : [items.length] = shape :=
      Option.some.inj (row.symm.trans (toTensor_eq_ok_iff.mp read).1)
    rw [toTensor_eq_row_iff] at read
    exact read.1

/-! ### Members -/

section Members

omit [Scalar α] [DecimalText α]

def HasMember (j : Json α) (name : String) (value : Json α) : Prop :=
  ∃ members, j = .obj members ∧ lookup members name = some value

/-- A member is there and has a property. -/
def Holds (j : Json α) (name : String) (P : Json α → Prop) : Prop :=
  ∃ value, j.HasMember name value ∧ P value

theorem HasMember.unique {name : String} {value value' j : Json α} (h : j.HasMember name value)
    (h' : j.HasMember name value') : value = value' := by
  obtain ⟨members, rfl, found⟩ := h
  obtain ⟨_, ⟨⟩, found'⟩ := h'
  exact Option.some.inj (found.symm.trans found')

theorem holds_and_iff {j : Json α} {name : String} {P Q : Json α → Prop} :
    j.Holds name (fun value => P value ∧ Q value) ↔ j.Holds name P ∧ j.Holds name Q := by
  constructor
  · rintro ⟨value, member, hp, hq⟩
    exact ⟨⟨value, member, hp⟩, value, member, hq⟩
  · rintro ⟨⟨value, member, hp⟩, value', member', hq⟩
    obtain rfl := member.unique member'
    exact ⟨value, member, hp, hq⟩

end Members

/-! ### Segments -/

/-- A segment is written member by member, with the entries of its value in a way of their own. -/
@[mk_iff]
structure IsSegment (Entries : Json α → List α → Prop) (j : Json α) (s : ThrottleSegment α) :
    Prop where
  start : j.Holds "start" (·.toNumber = .ok s.start.mjd2000)
  final : j.Holds "end" (·.toNumber = .ok s.final.mjd2000)
  value : j.Holds "value" (Entries · s.value.toList)

theorem isSegment_writes_iff (j : Json α) (s : ThrottleSegment α) :
    j.IsSegment Writes s ↔ j.Holds "value" IsFlat ∧ j.IsSegment Flattens s := by
  simp only [isSegment_iff, writes_iff, holds_and_iff]
  tauto

/-- A segment for each item of an array, in the same order. -/
def ListsSegments (j : Json α) (throttles : List (ThrottleSegment α)) : Prop :=
  ∃ items, j = .arr items ∧ List.Forall₂ (fun item s => item.IsSegment Writes s) items throttles

/-- Segments whose values may be nested, or none where nothing else is held. -/
def TakesSegments (j : Json α) (throttles : List (ThrottleSegment α)) : Prop :=
  (∃ items, j = .arr items ∧
      List.Forall₂ (fun item s => item.IsSegment Flattens s) items throttles) ∨
    (j = .obj [] ∨ j = .str []) ∧ throttles = []

theorem listsSegments_iff {j : Json α} {throttles : List (ThrottleSegment α)} :
    j.ListsSegments throttles ↔
      j.TakesSegments throttles ∧
        ∃ items, j = .arr items ∧ ∀ item ∈ items, item.Holds "value" IsFlat := by
  constructor
  · rintro ⟨items, rfl, listed⟩
    simp only [isSegment_writes_iff, List.forall₂_and_left] at listed
    exact ⟨.inl ⟨items, rfl, listed.2⟩, items, rfl, listed.1⟩
  · rintro ⟨⟨_, rfl, taken⟩ | ⟨rfl | rfl, -⟩, _, ⟨⟩, flat⟩
    refine ⟨_, rfl, ?_⟩
    simp only [isSegment_writes_iff, List.forall₂_and_left]
    exact ⟨flat, taken⟩

end Json

/-! ### Components -/

theorem Vec3.ofList?_eq_some_iff {xs : List α} {v : Vec3 α} :
    ofList? xs = some v ↔ xs = v.toList := by
  constructor
  · intro h
    unfold ofList? at h
    split at h
    · cases h
      rfl
    · cases h
  · rintro rfl
    rfl

theorem State.ofList?_eq_some_iff {xs : List α} {s : State α} :
    ofList? xs = some s ↔ xs = s.toList := by
  constructor
  · intro h
    unfold ofList? at h
    split at h
    · cases h
      rfl
    · cases h
  · rintro rfl
    rfl

theorem State.ofTensor_eq_ok_iff {t : Tensor α} {s : State α} :
    ofTensor t = .ok s ↔ t = ⟨[7], s.toList⟩ := by
  obtain ⟨shape, entries⟩ := t
  simp only [ofTensor, Tensor.mk.injEq, ← ofList?_eq_some_iff]
  by_cases row : shape = [7]
  · cases ofList? entries <;> simp [row]
  · simp [row]

theorem Tensor.toVec3_eq_ok_iff {quantity : Quantity} {t : Tensor α} {v : Vec3 α} :
    t.toVec3 quantity = .ok v ↔ t.entries = v.toList := by
  rw [toVec3, ← Vec3.ofList?_eq_some_iff]
  cases Vec3.ofList? t.entries <;> simp

/-! ### Documents -/

namespace Leg.Document

variable [Scalar α] [DecimalText α]

/-- Each part of a leg is written where it belongs, the segments in a way of their own. -/
structure Describes (Throttles : Json α → List (ThrottleSegment α) → Prop) (document : Json α)
    (t : Transfer α) : Prop where
  startEpoch : document.Holds "t_i" (·.toNumber = .ok t.startEpoch.mjd2000)
  startState : document.Holds "x_i" (·.Writes t.startState.toList)
  throttles : document.Holds "throttles" (Throttles · t.throttles)
  finalEpoch : document.Holds "t_f" (·.toNumber = .ok t.finalEpoch.mjd2000)
  finalState : document.Holds "x_f" (·.Writes t.finalState.toList)
  spacecraft : document.Holds "spacecraft" fun j =>
    j.Holds "mass" (·.toNumber = .ok t.spacecraft.mass) ∧
      j.Holds "thrust" (·.toNumber = .ok t.spacecraft.thrust) ∧
        j.Holds "isp" (·.toNumber = .ok t.spacecraft.isp)
  gravity : document.Holds "mu" (·.toNumber = .ok t.mu)

omit [Scalar α] [DecimalText α] in
theorem member_eq_ok_iff {name : String} {j value : Json α} :
    member name j = .ok value ↔ j.HasMember name value := by
  cases j with
  | obj members =>
    simp only [member, Json.HasMember, Json.obj.injEq, exists_eq_left']
    cases Json.lookup members name <;> simp
  | null | bool | int | real | str | arr => simp [member, malformed, Json.HasMember]

theorem number_eq_ok_iff {name : String} {j : Json α} {x : α} :
    number name j = .ok x ↔ j.Holds name (·.toNumber = .ok x) := by
  simp only [number, bind_eq_ok_iff, member_eq_ok_iff, mapError_eq_ok_iff]
  rfl

theorem epoch_eq_ok_iff {name : String} {j : Json α} {t : Epoch α} :
    epoch name j = .ok t ↔ j.Holds name (·.toNumber = .ok t.mjd2000) := by
  rw [← number_eq_ok_iff]
  simp only [epoch, bind_eq_ok_iff, pure_eq_ok_iff]
  constructor
  · rintro ⟨x, read, rfl⟩
    exact read
  · intro read
    exact ⟨_, read, rfl⟩

theorem tensor_eq_ok_iff {j : Json α} {t : Tensor α} : tensor j = .ok t ↔ j.toTensor = .ok t :=
  mapError_eq_ok_iff

theorem state_eq_ok_iff {name : String} {j : Json α} {s : State α} :
    state name j = .ok s ↔ j.Holds name (·.Writes s.toList) := by
  simp only [state, bind_eq_ok_iff, member_eq_ok_iff, tensor_eq_ok_iff, State.ofTensor_eq_ok_iff,
    exists_eq_right, Json.toTensor_eq_row_iff, State.length_toList, and_true]
  rfl

theorem segment_eq_ok_iff {j : Json α} {s : ThrottleSegment α} :
    segment j = .ok s ↔ j.IsSegment Json.Flattens s := by
  simp only [segment, bind_eq_ok_iff, epoch_eq_ok_iff, member_eq_ok_iff, tensor_eq_ok_iff,
    ThrottleSegment.ofTensor, pure_eq_ok_iff, Tensor.toVec3_eq_ok_iff]
  constructor
  · rintro ⟨start, hs, final, hf, value, member, ⟨shape, _⟩, read, v, rfl, rfl⟩
    exact ⟨hs, hf, value, member, shape, read⟩
  · rintro ⟨hs, hf, value, member, shape, read⟩
    exact ⟨_, hs, _, hf, value, member, ⟨shape, _⟩, read, _, rfl, rfl⟩

theorem segments_eq_ok_iff {j : Json α} {throttles : List (ThrottleSegment α)} :
    segments j = .ok throttles ↔ j.TakesSegments throttles := by
  have listed (items : List (Json α)) :
      items.mapM segment = .ok throttles ↔
        List.Forall₂ (fun item s => item.IsSegment Json.Flattens s) items throttles := by
    simp only [mapM_eq_ok_iff, segment_eq_ok_iff]
  cases j with
  | arr items => simp [segments, listed, Json.TakesSegments]
  | obj members =>
    cases members <;> simp [segments, malformed, Json.TakesSegments, eq_comm]
  | str s =>
    cases s <;> simp [segments, malformed, Json.TakesSegments, eq_comm]
  | null | bool | int | real => simp [segments, malformed, Json.TakesSegments]

theorem spacecraft_eq_ok_iff {j : Json α} {sc : Spacecraft α} :
    spacecraft j = .ok sc ↔
      j.Holds "mass" (·.toNumber = .ok sc.mass) ∧
        j.Holds "thrust" (·.toNumber = .ok sc.thrust) ∧
          j.Holds "isp" (·.toNumber = .ok sc.isp) := by
  simp only [spacecraft, bind_eq_ok_iff, number_eq_ok_iff, pure_eq_ok_iff]
  constructor
  · rintro ⟨mass, hm, thrust, ht, isp, hi, rfl⟩
    exact ⟨hm, ht, hi⟩
  · rintro ⟨hm, ht, hi⟩
    exact ⟨_, hm, _, ht, _, hi, rfl⟩

omit [DecimalText α] in
theorem getD_mode (members : List (List Nat × Json α)) :
    (mode members).getD false = true ↔
      (Json.obj members).Holds "high_fidelity" (·.isTruthy = true) := by
  simp only [mode, Json.Holds, Json.HasMember, Json.obj.injEq, exists_eq_left']
  cases Json.lookup members "high_fidelity" with
  | none => simp
  | some flag => cases flag <;> simp [Json.isTruthy]

omit [Scalar α] [DecimalText α] in
theorem isSupported_lookup (members : List (List Nat × Json α)) :
    isSupported ((Json.lookup members "version").getD .null) = true ↔
      (Json.obj members).Holds "version" (isSupported · = true) := by
  simp only [Json.Holds, Json.HasMember, Json.obj.injEq, exists_eq_left']
  cases Json.lookup members "version" with
  | none => simp [isSupported]
  | some version => simp

/-- The parts of a setup are those of a leg with any settings. -/
theorem setup_eq_ok_iff (config : PropagationConfig α) {members : List (List Nat × Json α)}
    {s : LegSetup α} :
    setup members = .ok s ↔
      ∃ t, Describes Json.TakesSegments (.obj members) t ∧ t.config = config ∧
        t.highFidelity = (mode members).getD false ∧
          s = { setupOf t with highFidelity := mode members } := by
  simp only [setup, bind_eq_ok_iff, pure_eq_ok_iff, member_eq_ok_iff, segments_eq_ok_iff,
    spacecraft_eq_ok_iff, epoch_eq_ok_iff, state_eq_ok_iff, number_eq_ok_iff]
  constructor
  · rintro ⟨_, listed, throttles, ht, _, craft, sc, hsc, start, hs, final, hf, x, hx, y, hy, mu,
      hmu, rfl⟩
    exact ⟨⟨config, start, x, throttles, final, y, sc, mu, (mode members).getD false⟩,
      ⟨hs, hx, ⟨_, listed, ht⟩, hf, hy, ⟨_, craft, hsc⟩, hmu⟩, rfl, rfl, rfl⟩
  · rintro ⟨t, ⟨hs, hx, ⟨_, listed, ht⟩, hf, hy, ⟨_, craft, hsc⟩, hmu⟩, -, -, rfl⟩
    exact ⟨_, listed, _, ht, _, craft, _, hsc, _, hs, _, hf, _, hx, _, hy, _, hmu, rfl⟩

end Leg.Document

namespace Leg

variable [Scalar α] [DecimalText α]

theorem ofJson_obj_eq_ok_iff {config : PropagationConfig α} {members : List (List Nat × Json α)}
    {leg : Leg α} :
    ofJson config (.obj members) = .ok leg ↔
      (Json.obj members).Holds "version" (Document.isSupported · = true) ∧
        ∃ s, Document.setup members = .ok s ∧ (empty config).setUp s = .ok leg ∧
          ∃ days, timeOfFlight s.startEpoch s.finalEpoch = .ok days := by
  rw [← Document.isSupported_lookup, ofJson]
  by_cases supported :
      Document.isSupported ((Json.lookup members "version").getD .null) = true
  · simp only [supported, if_true, bind_eq_ok_iff, run_configure, true_and]
    refine exists_congr fun s => and_congr_right fun _ => ?_
    cases (empty config).setUp s with
    | error => simp
    | ok after => cases timeOfFlight s.startEpoch s.finalEpoch <;> simp
  · simp [supported]

omit [Scalar α] [DecimalText α] in
theorem withSetup_setupOf {t : Transfer α} {mode : Option Bool}
    (h : t.highFidelity = mode.getD false) :
    (empty t.config).withSetup { Document.setupOf t with highFidelity := mode } t.throttles =
      t.toLeg := by
  simp [withSetup, Transfer.toLeg, Document.setupOf, empty, h]

/-- What a document that is accepted describes. -/
theorem ofJson_eq_ok_iff {config : PropagationConfig α} {document : Json α} {leg : Leg α} :
    ofJson config document = .ok leg ↔
      document.Holds "version" (Document.isSupported · = true) ∧
        ∃ t, Document.Describes Json.TakesSegments document t ∧ t.config = config ∧
          (t.highFidelity = true ↔ document.Holds "high_fidelity" (·.isTruthy = true)) ∧
            t.toLeg.Sound ∧ leg = t.toLeg := by
  cases document with
  | obj members =>
    simp only [ofJson_obj_eq_ok_iff, Document.setup_eq_ok_iff config, ← Document.getD_mode,
      ← Bool.eq_iff_iff]
    refine and_congr_right fun _ => ?_
    constructor
    · rintro ⟨_, ⟨t, described, rfl, mode, rfl⟩, set, -⟩
      have sound := sound_setUp set
      obtain ⟨-, -, _, ⟨⟩, rfl⟩ := setUp_eq_ok_iff.mp set
      rw [withSetup_setupOf mode] at sound ⊢
      exact ⟨t, described, rfl, mode, sound, rfl⟩
    · rintro ⟨t, described, rfl, mode, sound, rfl⟩
      refine ⟨_, ⟨t, described, rfl, mode, rfl⟩, setUp_eq_ok_iff.mpr ?_, _, rfl⟩
      exact ⟨(checkEpochs_eq_ok_iff _ _).mpr sound.epochs,
        (checkMu_eq_ok_iff _).mpr (sound.gravity t.mu rfl), _, rfl, (withSetup_setupOf mode).symm⟩
  | null | bool | int | real | str | arr => simp [ofJson, Json.Holds, Json.HasMember]

/-- Of the documents that are accepted, those keep to the documented layout whose segments are an
array of which no value is nested. The states of all of them keep to it. -/
theorem ofJson_describes_iff {config : PropagationConfig α} {document : Json α} {leg : Leg α}
    (accepted : ofJson config document = .ok leg) :
    ∃ t, leg = t.toLeg ∧ Document.Describes Json.TakesSegments document t ∧
      (Document.Describes Json.ListsSegments document t ↔
        ∃ items, document.HasMember "throttles" (.arr items) ∧
          ∀ item ∈ items, item.Holds "value" Json.IsFlat) := by
  obtain ⟨-, t, described, -, -, -, rfl⟩ := ofJson_eq_ok_iff.mp accepted
  refine ⟨t, rfl, described, ?_⟩
  constructor
  · intro documented
    obtain ⟨_, member, listed⟩ := documented.throttles
    obtain ⟨-, items, rfl, flat⟩ := Json.listsSegments_iff.mp listed
    exact ⟨items, member, flat⟩
  · rintro ⟨items, member, flat⟩
    obtain ⟨_, member', taken⟩ := described.throttles
    obtain rfl := member'.unique member
    refine { described with throttles := ⟨_, member, ?_⟩ }
    exact Json.listsSegments_iff.mpr ⟨taken, items, rfl, flat⟩

/-- A transfer with one segment. -/
def singleBurn : Transfer Float where
  config := .default
  startEpoch := ⟨0.0⟩
  startState := ⟨⟨⟨1.0, 0.0, 0.0⟩, ⟨0.0, 1.0, 0.0⟩⟩, 50.0⟩
  throttles := [⟨⟨0.0⟩, ⟨100.0⟩, ⟨0.5, 0.0, 0.25⟩⟩]
  finalEpoch := ⟨100.0⟩
  finalState := ⟨⟨⟨0.0, 1.0, 0.0⟩, ⟨-1.0, 0.0, 0.0⟩⟩, 40.0⟩
  spacecraft := ⟨50.0, 0.25, 3000.0⟩
  mu := 1.0
  highFidelity := false

/-- Its document with something else for the segments. -/
def singleBurnWith (throttles : Json Float) : Json Float :=
  .object (singleBurn.members.map fun (name, j) =>
    (name, if name = "throttles" then throttles else j))

/-- Its segment with a value that is nested. -/
def nestedBurn : Json Float := .object [
  ("start", .real 0.0),
  ("end", .real 100.0),
  ("value", .arr [.arr [.real 0.5, .real 0.0, .real 0.25]])]

theorem describes_nestedBurn :
    let document := singleBurnWith (.arr [nestedBurn])
    ofJson .default document = .ok singleBurn.toLeg ∧
      ∃ t, singleBurn.toLeg = t.toLeg ∧ Document.Describes Json.TakesSegments document t ∧
        ¬ Document.Describes Json.ListsSegments document t := by
  intro document
  have accepted : ofJson .default document = .ok singleBurn.toLeg := rfl
  obtain ⟨t, same, described, documented⟩ := ofJson_describes_iff accepted
  refine ⟨accepted, t, same, described, ?_⟩
  rw [documented]
  rintro ⟨items, member, flat⟩
  cases member.unique ⟨_, rfl, rfl⟩
  obtain ⟨value, member, items, rfl, scalars⟩ := flat nestedBurn List.mem_cons_self
  cases member.unique ⟨_, rfl, rfl⟩
  exact scalars _ List.mem_cons_self ⟨_, rfl⟩

/-- An object is accepted for the list of segments. -/
theorem not_describes_emptyObject :
    ¬ ∀ (config : PropagationConfig Float) (document : Json Float) (leg : Leg Float),
      ofJson config document = .ok leg →
        ∃ t, leg = t.toLeg ∧ Document.Describes Json.ListsSegments document t := by
  intro documented
  obtain ⟨t, -, described⟩ := documented .default (singleBurnWith (.obj []))
    { singleBurn with throttles := [] }.toLeg rfl
  obtain ⟨_, member, items, rfl, -⟩ := described.throttles
  cases member.unique ⟨_, rfl, rfl⟩

end Leg

end LowThrust
