import LowThrust.Proofs.Binary64.Shortest
import LowThrust.Proofs.Json.Objects
import LowThrust.Proofs.Leg.Invariant

/-!
Legs and their documents: the document of a complete leg, in whichever style it is written, sets
up the leg again.
-/

namespace LowThrust

open Json (Style)

variable {α : Type}

/-! ### What is written can be read -/

namespace ThrottleSegment

variable (s : ThrottleSegment α)

theorem nodup_members : (s.members.map Prod.fst).Nodup := by
  change ["start", "end", "value"].Nodup
  decide

theorem readable_toJson : s.toJson.Readable := by
  refine Json.readable_object ?_ s.nodup_members ?_
  · change ∀ name ∈ ["start", "end", "value"], _
    decide
  · simp only [members, List.forall_mem_cons]
    exact ⟨.real _, .real _, Json.readable_reals _, by simp⟩

end ThrottleSegment

namespace Spacecraft

variable (sc : Spacecraft α)

theorem nodup_members : (sc.members.map Prod.fst).Nodup := by
  change ["mass", "thrust", "isp"].Nodup
  decide

theorem readable_toJson : sc.toJson.Readable := by
  refine Json.readable_object ?_ sc.nodup_members ?_
  · change ∀ name ∈ ["mass", "thrust", "isp"], _
    decide
  · simp only [members, List.forall_mem_cons]
    exact ⟨.real _, .real _, .real _, by simp⟩

end Spacecraft

namespace Transfer

variable (t : Transfer α)

theorem nodup_members : (t.members.map Prod.fst).Nodup := by
  change ["version", "t_i", "x_i", "throttles", "t_f", "x_f", "spacecraft", "mu",
    "high_fidelity"].Nodup
  decide

theorem readable_toJson : t.toJson.Readable := by
  refine Json.readable_object ?_ t.nodup_members ?_
  · change ∀ name ∈ ["version", "t_i", "x_i", "throttles", "t_f", "x_f", "spacecraft", "mu",
      "high_fidelity"], _
    decide
  · have throttles : (Json.arr (t.throttles.map ThrottleSegment.toJson)).Readable := by
      refine .arr _ ?_
      intro j hj
      obtain ⟨s, -, rfl⟩ := List.mem_map.mp hj
      exact s.readable_toJson
    simp only [members, List.forall_mem_cons]
    exact ⟨.int _ (by decide), .real _, Json.readable_reals _, throttles, .real _,
      Json.readable_reals _, t.spacecraft.readable_toJson, .real _, .bool _, by simp⟩

end Transfer

/-! ### What is read is what was written -/

namespace Leg.Document

variable {st : Style} {members : List (String × Json α)}

theorem member_object (h : (members.map Prod.fst).Nodup) {name : String} {j : Json α}
    (mem : (name, j) ∈ members) :
    member name ((Json.object members).arranged st) = .ok (j.arranged st) := by
  rw [Json.arranged_object, member, Json.lookup_arranged h mem]

variable [Scalar α] [DecimalText α]

theorem number_object (h : (members.map Prod.fst).Nodup) {name : String} {x : α}
    (mem : (name, .real x) ∈ members) :
    number name ((Json.object members).arranged st) = .ok x := by
  rw [number, member_object h mem]
  rfl

theorem epoch_object (h : (members.map Prod.fst).Nodup) {name : String} {t : Epoch α}
    (mem : (name, .real t.mjd2000) ∈ members) :
    epoch name ((Json.object members).arranged st) = .ok t := by
  rw [epoch, number_object h mem]
  rfl

theorem tensor_reals (xs : List α) : tensor (.arr (xs.map .real)) = .ok ⟨[xs.length], xs⟩ := by
  rw [tensor, Json.toTensor_reals]
  rfl

theorem state_object (h : (members.map Prod.fst).Nodup) {name : String} {s : State α}
    (mem : (name, s.toJson) ∈ members) :
    state name ((Json.object members).arranged st) = .ok s := by
  rw [state, member_object h mem, State.toJson, Json.arranged_reals]
  simp only [bind, Except.bind, tensor_reals]
  rfl

theorem segment_toJson (st : Style) (s : ThrottleSegment α) :
    segment (s.toJson.arranged st) = .ok s := by
  have distinct := s.nodup_members
  rw [ThrottleSegment.toJson, segment,
    epoch_object (t := s.start) distinct (by simp [ThrottleSegment.members]),
    epoch_object (t := s.final) distinct (by simp [ThrottleSegment.members]),
    member_object (j := .arr (s.value.toList.map .real)) distinct
      (by simp [ThrottleSegment.members]),
    Json.arranged_reals]
  simp only [bind, Except.bind, tensor_reals]
  rfl

theorem segments_toJson (st : Style) (throttles : List (ThrottleSegment α)) :
    segments ((Json.arr (throttles.map ThrottleSegment.toJson)).arranged st) = .ok throttles := by
  rw [Json.arranged, Json.arrangedItems_eq_map, segments]
  induction throttles with
  | nil => rfl
  | cons s throttles ih =>
    rw [List.map_cons, List.map_cons, List.mapM_cons, segment_toJson, ih]
    rfl

theorem spacecraft_toJson (st : Style) (sc : Spacecraft α) :
    spacecraft (sc.toJson.arranged st) = .ok sc := by
  have distinct := sc.nodup_members
  rw [Spacecraft.toJson, spacecraft,
    number_object (x := sc.mass) distinct (by simp [Spacecraft.members]),
    number_object (x := sc.thrust) distinct (by simp [Spacecraft.members]),
    number_object (x := sc.isp) distinct (by simp [Spacecraft.members])]
  rfl

/-- The setup of a complete leg. -/
def setupOf (t : Transfer α) : LegSetup α where
  startEpoch := some t.startEpoch
  startState := some t.startState
  throttles := t.throttles
  finalEpoch := some t.finalEpoch
  finalState := some t.finalState
  mu := t.mu
  spacecraft := some t.spacecraft
  highFidelity := some t.highFidelity

theorem setup_members (st : Style) (t : Transfer α) :
    setup (st.order (t.members.map fun m => (Json.codePoints m.1, m.2.arranged st))) =
      .ok (setupOf t) := by
  have distinct := t.nodup_members
  have flag : mode (st.order (t.members.map fun m => (Json.codePoints m.1, m.2.arranged st))) =
      some t.highFidelity := by
    rw [mode, Json.lookup_arranged (j := .bool t.highFidelity) distinct (by simp [Transfer.members])]
    rfl
  rw [setup, flag, ← Json.arranged_object]
  simp only [bind, Except.bind,
    member_object (j := .arr (t.throttles.map ThrottleSegment.toJson)) distinct
      (show ("throttles", _) ∈ _ by simp [Transfer.members]),
    member_object (j := t.spacecraft.toJson) distinct
      (show ("spacecraft", _) ∈ _ by simp [Transfer.members]),
    segments_toJson, spacecraft_toJson,
    epoch_object (t := t.startEpoch) distinct (show ("t_i", _) ∈ _ by simp [Transfer.members]),
    epoch_object (t := t.finalEpoch) distinct (show ("t_f", _) ∈ _ by simp [Transfer.members]),
    state_object (s := t.startState) distinct (show ("x_i", _) ∈ _ by simp [Transfer.members]),
    state_object (s := t.finalState) distinct (show ("x_f", _) ∈ _ by simp [Transfer.members]),
    number_object (x := t.mu) distinct (show ("mu", _) ∈ _ by simp [Transfer.members])]
  rfl

end Leg.Document

/-! ### Whole legs -/

/-- A complete leg as a leg of which nothing is missing. -/
def Transfer.toLeg (t : Transfer α) : Leg α where
  config := t.config
  startEpoch := some t.startEpoch
  startState := some t.startState
  throttles := t.throttles
  finalEpoch := some t.finalEpoch
  finalState := some t.finalState
  spacecraft := some t.spacecraft
  mu := some t.mu
  highFidelity := t.highFidelity

namespace Leg

theorem eq_toLeg_of_snapshot {leg : Leg α} {t : Transfer α} (h : leg.snapshot = .ok t) :
    leg = t.toLeg := by
  obtain ⟨_, _ | _, _ | _, _, _ | _, _ | _, _ | _, _ | _, _⟩ := leg <;> cases h
  rfl

/-- The checks of a setup are those that every leg has passed. -/
theorem setUp_setupOf [Scalar α] {t : Transfer α} (hs : t.toLeg.Sound)
    (config : PropagationConfig α) :
    (empty config).setUp (Document.setupOf t) = .ok { t.toLeg with config } := by
  refine setUp_eq_ok_iff.mpr ⟨?_, ?_, t.throttles, rfl, rfl⟩
  · exact (checkEpochs_eq_ok_iff _ _).mpr hs.epochs
  · exact (checkMu_eq_ok_iff _).mpr (hs.gravity t.mu rfl)

variable [DecimalText α]

theorem print_eq_ok_iff {leg : Leg α} {style : Style} {text : List Char} :
    leg.print style = .ok text ↔ ∃ t, leg.snapshot = .ok t ∧ text = t.toJson.print style := by
  simp only [print, toJson, bind_eq_ok_iff, pure_eq_ok_iff]
  constructor
  · rintro ⟨_, ⟨t, h, rfl⟩, rfl⟩
    exact ⟨t, h, rfl⟩
  · rintro ⟨t, h, rfl⟩
    exact ⟨_, ⟨t, h, rfl⟩, rfl⟩

theorem missing_eq_nil_iff_print (leg : Leg α) (style : Style) :
    leg.missing = [] ↔ ∃ text, leg.print style = .ok text := by
  simp only [missing_eq_nil_iff, print_eq_ok_iff]
  constructor
  · rintro ⟨t, h⟩
    exact ⟨_, t, h, rfl⟩
  · rintro ⟨-, t, h, -⟩
    exact ⟨t, h⟩

variable [Scalar α]

theorem ofJson_toJson (style : Style) {t : Transfer α} (hs : t.toLeg.Sound)
    (config : PropagationConfig α) :
    ofJson config (t.toJson.arranged style) = .ok { t.toLeg with config } := by
  have version : Json.lookup
      (style.order (t.members.map fun m => (Json.codePoints m.1, m.2.arranged style))) "version" =
        some (.int formatVersion) := by
    rw [Json.lookup_arranged (j := .int formatVersion) t.nodup_members (by simp [Transfer.members])]
    rfl
  have supported : Document.isSupported (.int formatVersion : Json α) = true := rfl
  rw [Transfer.toJson, Json.arranged_object]
  simp only [ofJson, version, Option.getD_some, supported, if_true, Document.setup_members, bind,
    Except.bind, run_configure, setUp_setupOf hs]
  rfl

variable [LawfulDecimalText α]

/-- A leg that has passed its checks comes back from its text, with the settings it is read for. -/
theorem parse_print {leg : Leg α} (hs : leg.Sound) {style : Style} {text : List Char}
    (h : leg.print style = .ok text) (config : PropagationConfig α) :
    parse config text = .ok { leg with config } := by
  obtain ⟨t, snapshot, rfl⟩ := print_eq_ok_iff.mp h
  obtain rfl := eq_toLeg_of_snapshot snapshot
  rw [parse, Json.parse_print style t.readable_toJson]
  exact ofJson_toJson style hs config

end Leg

namespace LegCommand

section Reload

variable [Scalar α] [DecimalText α] [LawfulDecimalText α]

/-- Saving a leg and loading it again changes nothing. -/
theorem run_reload {leg : Leg α} (hs : leg.Sound) (h : leg.missing = []) :
    reload.run leg = (.ok (), leg) := by
  obtain ⟨text, printed⟩ := (leg.missing_eq_nil_iff_print Leg.fileStyle).mp h
  have written : reload.written leg = .ok leg := by
    rw [written, printed]
    exact Leg.parse_print hs printed leg.config
  rw [run_eq, written]
  rfl

/-- A leg that is not complete is not saved, and stays as well. -/
theorem snd_run_reload {leg : Leg α} (hs : leg.Sound) : (reload.run leg).2 = leg := by
  by_cases h : leg.missing = []
  · rw [run_reload hs h]
  · have refused : ∃ fault, reload.written leg = .error fault := by
      rw [written]
      cases hp : leg.print Leg.fileStyle with
      | error fault => exact ⟨fault, rfl⟩
      | ok text => exact absurd ((leg.missing_eq_nil_iff_print _).mpr ⟨text, hp⟩) h
    obtain ⟨fault, refused⟩ := refused
    rw [run_eq, refused]

end Reload

/-- Every complete leg that there can be is written in each style and comes back from its text as
it was. No history tells whether the leg was saved and loaded somewhere in it. -/
theorem export_import_runAll (config config' : PropagationConfig Float) (style : Style)
    (before after : List (LegCommand Float)) :
    let leg := runAll (.empty config) before
    ((∃ text, leg.print style = .ok text) ↔ leg.missing = []) ∧
      (∀ text, leg.print style = .ok text →
        Leg.parse config' text = .ok { leg with config := config' } ∧
          reload.run leg = (.ok (), leg)) ∧
        runAll (.empty config) (before ++ reload :: after) =
          runAll (.empty config) (before ++ after) := by
  intro leg
  have sound : leg.Sound := sound_runAll (Leg.sound_empty config) before
  have complete := leg.missing_eq_nil_iff_print style
  refine ⟨complete.symm, ?_, ?_⟩
  · intro text printed
    exact ⟨Leg.parse_print sound printed config', run_reload sound (complete.mpr ⟨text, printed⟩)⟩
  · rw [runAll_append, runAll_cons, snd_run_reload sound, runAll_append]

/-- A setup with values of every kind: signed zeros, infinities and no number. -/
def farTransfer : LegSetup Float where
  startEpoch := some ⟨-0.0⟩
  startState := some ⟨⟨⟨1.4e8, -0.0, 0.1⟩, ⟨0.3, 29.8, Scalar.nan⟩⟩, 1500.0⟩
  throttles := .ok [⟨⟨-0.0⟩, ⟨100.0⟩, ⟨0.3, -0.0, 1.0 / 0.0⟩⟩,
    ⟨⟨100.0⟩, ⟨200.0⟩, ⟨Scalar.nan, 1e-5, -1.0 / 0.0⟩⟩]
  finalEpoch := some ⟨200.0⟩
  finalState := some ⟨⟨⟨-1.4e8, 1.0, 5e-324⟩, ⟨0.3, -29.8, 0.0⟩⟩, 1400.0⟩
  mu := 1.32712440018e11
  spacecraft := some ⟨1500.0, 0.3, 3000.0⟩
  highFidelity := some true

theorem export_import_farTransfer :
    let leg := runAll (.empty .default) [configure farTransfer]
    leg.missing = [] ∧ ∃ text, leg.print { indent := some 4, sortKeys := true } = .ok text ∧
      Leg.parse .default text = .ok leg ∧ reload.run leg = (.ok (), leg) := by
  intro leg
  have complete : leg.missing = [] := by decide
  have history := export_import_runAll .default .default { indent := some 4, sortKeys := true }
    [configure farTransfer] []
  obtain ⟨text, printed⟩ := history.1.mpr complete
  exact ⟨complete, text, printed, history.2.1 text printed⟩

end LegCommand

end LowThrust
