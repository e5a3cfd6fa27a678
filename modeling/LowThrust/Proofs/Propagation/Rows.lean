import Mathlib
import LowThrust.Proofs.Propagation.Order
import LowThrust.Proofs.Propagation.OutputTimes

/-!
The rows of a propagation, in exact arithmetic. Their times lead from zero to the end; a time occurs
twice, before and after its maneuvers, if these lie in between.
-/

namespace LowThrust

/-- Rows for a grid of times are at these times, the first of them with the state at the start. -/
def Integrator.Tabulates (integrator : Integrator ℝ) (config : IntegratorConfig ℝ) (mu : ℝ) :
    Prop :=
  ∀ a b s times rows, a < b → IsGrid a b times →
    integrator.sample config (State.coastRate mu) a b s times = .ok rows →
      rows.map Prod.fst = times ∧ rows.head? = some (a, s)

/-- Every grid of times is given rows. -/
def Integrator.Succeeds (integrator : Integrator ℝ) (config : IntegratorConfig ℝ) (mu : ℝ) :
    Prop :=
  ∀ a b s times, a < b → IsGrid a b times →
    ∃ rows, integrator.sample config (State.coastRate mu) a b s times = .ok rows

namespace Maneuver

variable {start : Epoch ℝ} {t : ℝ} {m : Maneuver ℝ} {ms ms' : List (Maneuver ℝ)}

/-- The maneuvers at a time. -/
noncomputable def due (start : Epoch ℝ) (t : ℝ) (ms : List (Maneuver ℝ)) : List (Maneuver ℝ) :=
  ms.filter fun m => decide (m.time start = t)

theorem due_cons_of_eq (h : m.time start = t) (ms : List (Maneuver ℝ)) :
    due start t (m :: ms) = m :: due start t ms :=
  List.filter_cons_of_pos (decide_eq_true h)

theorem due_cons_of_ne (h : m.time start ≠ t) (ms : List (Maneuver ℝ)) :
    due start t (m :: ms) = due start t ms :=
  List.filter_cons_of_neg (by simpa using h)

theorem due_eq_nil (h : ∀ m ∈ ms, m.time start ≠ t) : due start t ms = [] :=
  List.filter_eq_nil_iff.mpr fun m hm => by simpa using h m hm

theorem due_cons_ne_nil (h : due start t ms ≠ []) : due start t (m :: ms) ≠ [] := by
  obtain ⟨m', hm'⟩ := List.exists_mem_of_ne_nil _ h
  obtain ⟨hm', now⟩ := List.mem_filter.mp hm'
  exact List.ne_nil_of_mem (List.mem_filter.mpr ⟨List.mem_cons_of_mem m hm', now⟩)

theorem due_perm (h : ms.Perm ms') : (due start t ms).Perm (due start t ms') := h.filter _

theorem eq_effect_of_apply (h : m.isp ≠ some 0) {s next : State ℝ}
    (applied : m.apply s = .ok next) : next = m.effect s := by
  cases components : Vec3.spread? m.dv with
  | none =>
    rw [apply, components] at applied
    cases applied
  | some dv =>
    have sound : m.Sound := ⟨⟨dv, components⟩, h⟩
    exact Except.ok.inj (applied.symm.trans (apply_of_sound sound s))

end Maneuver

/-- What the rows of a propagation from `current` on hold. -/
structure Records (start : Epoch ℝ) (duration : ℝ) (outputStep : Option ℝ) (ms : List (Maneuver ℝ))
    (current : ℝ) (s : State ℝ) (rows : List (ℝ × State ℝ)) : Prop where
  ordered : rows.Pairwise fun a b => a.1 ≤ b.1
  first : rows.head? = some (current, Maneuver.effects (Maneuver.due start current ms) s)
  last : ∃ final, rows.getLast? = some (duration, final)
  /-- Only times in between occur again, and only if they are those of maneuvers. -/
  again : rows.Pairwise fun a b =>
    a.1 = b.1 → current < a.1 ∧ a.1 < duration ∧ Maneuver.due start a.1 ms ≠ []
  /-- Such a time occurs in two rows, which differ by the effects of all its maneuvers. -/
  twice : ∀ t, current < t → t < duration → Maneuver.due start t ms ≠ [] →
    ∃ before reached after, rows =
        before ++ (t, reached) :: (t, Maneuver.effects (Maneuver.due start t ms) reached) :: after ∧
      (∀ row ∈ before, row.1 < t) ∧ ∀ row ∈ after, t < row.1
  spaced : ∀ step ∈ outputStep, rows.IsChain fun a b => b.1 - a.1 ≤ step

namespace Records

variable {start : Epoch ℝ} {duration current t : ℝ} {outputStep : Option ℝ} {m : Maneuver ℝ}
  {ms ms' : List (Maneuver ℝ)} {s s' reached : State ℝ} {rows rest : List (ℝ × State ℝ)}

/-- Only what is due before the end matters, at the start only its effect. -/
theorem of_due (h : Records start duration outputStep ms current s rows)
    (first : Maneuver.effects (Maneuver.due start current ms') s' =
      Maneuver.effects (Maneuver.due start current ms) s)
    (same : ∀ t, current < t → t < duration →
      (Maneuver.due start t ms).Perm (Maneuver.due start t ms')) :
    Records start duration outputStep ms' current s' rows where
  ordered := h.ordered
  first := by rw [first, h.first]
  last := h.last
  again := h.again.imp fun {a b} only eq =>
    have ⟨after, before, occupied⟩ := only eq
    ⟨after, before, fun none => occupied ((none ▸ same a.1 after before).eq_nil)⟩
  twice := by
    intro t after before occupied
    have perm := same t after before
    obtain ⟨passed, reached, rest, parts, bounds⟩ :=
      h.twice t after before fun none => occupied ((none ▸ perm).nil_eq.symm)
    exact ⟨passed, reached, rest, by rw [← Maneuver.effects_perm perm, parts], bounds⟩
  spaced := h.spaced

/-- Without maneuvers no time occurs again. -/
theorem increasing (h : Records start duration outputStep [] current s rows) :
    rows.Pairwise fun a b => a.1 < b.1 :=
  (h.ordered.and h.again).imp fun ⟨le, only⟩ => le.lt_of_ne fun eq => (only eq).2.2 rfl

/-- The first time occurs once. -/
theorem split_first (h : Records start duration outputStep ms current s rows) :
    ∃ ahead, rows = (current, Maneuver.effects (Maneuver.due start current ms) s) :: ahead ∧
      ∀ row ∈ ahead, current < row.1 := by
  obtain ⟨ahead, parts⟩ := List.head?_eq_some_iff.mp h.first
  have ordered := h.ordered.and h.again
  rw [parts] at ordered
  refine ⟨ahead, parts, fun row hrow => ?_⟩
  obtain ⟨le, only⟩ := (List.pairwise_cons.mp ordered).1 row hrow
  exact le.lt_of_ne fun eq => (only eq).1.false

/-- Without maneuvers the last time occurs once, too. -/
theorem split_last (h : Records start t outputStep [] current s rows)
    (last : rows.getLast? = some (t, reached)) :
    ∃ passed, rows = passed ++ [(t, reached)] ∧ ∀ row ∈ passed, row.1 < t := by
  obtain ⟨passed, parts⟩ := List.getLast?_eq_some_iff.mp last
  have increasing := h.increasing
  rw [parts] at increasing
  obtain ⟨-, -, across⟩ := List.pairwise_append.mp increasing
  exact ⟨passed, parts, fun row hrow => across row hrow _ List.mem_cons_self⟩

/-- A coast to a maneuver that leaves some time, and what follows after it. -/
theorem append (hstep : ∀ step ∈ outputStep, 0 < step)
    (h : Records start t outputStep [] current s rows) (last : rows.getLast? = some (t, reached))
    (now : m.time start = t) (later : ∀ m' ∈ ms, t ≤ m'.time start) (after : current < t)
    (before : t < duration)
    (h' : Records start duration outputStep ms t (m.effect reached) rest) :
    Records start duration outputStep (m :: ms) current s (rows ++ rest) := by
  obtain ⟨passed, hrows, passed_lt⟩ := h.split_last last
  obtain ⟨ahead, hrest, lt_ahead⟩ := h'.split_first
  have due_now : Maneuver.due start t (m :: ms) = m :: Maneuver.due start t ms :=
    Maneuver.due_cons_of_eq now ms
  have due_earlier : ∀ t' < t, Maneuver.due start t' (m :: ms) = [] := fun t' lt =>
    Maneuver.due_eq_nil (List.forall_mem_cons.mpr
      ⟨(lt.trans_eq now.symm).ne', fun m' hm' => (lt.trans_le (later m' hm')).ne'⟩)
  have due_later : ∀ t', t < t' → Maneuver.due start t' (m :: ms) = Maneuver.due start t' ms :=
    fun t' lt => Maneuver.due_cons_of_ne (now.trans_lt lt).ne ms
  have rows_le : ∀ row ∈ rows, row.1 ≤ t := by
    rw [hrows, List.forall_mem_append]
    exact ⟨fun row hrow => (passed_lt row hrow).le, List.forall_mem_singleton.mpr le_rfl⟩
  have le_rest : ∀ row ∈ rest, t ≤ row.1 := by
    rw [hrest, List.forall_mem_cons]
    exact ⟨le_rfl, fun row hrow => (lt_ahead row hrow).le⟩
  constructor
  case ordered =>
    exact List.pairwise_append.mpr
      ⟨h.ordered, h'.ordered, fun a ha b hb => (rows_le a ha).trans (le_rest b hb)⟩
  case first =>
    have some : rows ≠ [] := List.ne_nil_of_mem (List.mem_of_getLast? last)
    rw [List.head?_append_of_ne_nil _ some, h.first, due_earlier current after]
    rfl
  case last =>
    obtain ⟨final, final_last⟩ := h'.last
    have some : rest ≠ [] := List.ne_nil_of_mem (List.mem_of_getLast? final_last)
    exact ⟨final, by rw [List.getLast?_append_of_ne_nil _ some, final_last]⟩
  case again =>
    refine List.pairwise_append.mpr ⟨?_, ?_, ?_⟩
    · exact h.increasing.imp fun lt eq => absurd eq lt.ne
    · exact h'.again.imp fun only eq =>
        have ⟨above, below, occupied⟩ := only eq
        ⟨after.trans above, below, Maneuver.due_cons_ne_nil occupied⟩
    · intro a ha b hb eq
      have at_t : a.1 = t := le_antisymm (rows_le a ha) (eq ▸ le_rest b hb)
      rw [at_t, due_now]
      exact ⟨after, before, List.cons_ne_nil _ _⟩
  case twice =>
    intro t' above below occupied
    rcases lt_trichotomy t' t with earlier | rfl | later
    · exact absurd (due_earlier t' earlier) occupied
    · refine ⟨passed, reached, ahead, ?_, passed_lt, lt_ahead⟩
      rw [hrows, hrest, due_now, Maneuver.effects_cons, List.append_assoc]
      rfl
    · rw [due_later t' later] at occupied ⊢
      obtain ⟨between, reached', following, parts, between_lt, lt_following⟩ :=
        h'.twice t' later below occupied
      refine ⟨rows ++ between, reached', following, ?_, ?_, lt_following⟩
      · rw [parts, List.append_assoc]
      · rw [List.forall_mem_append]
        exact ⟨fun row hrow => (rows_le row hrow).trans_lt later, between_lt⟩
  case spaced =>
    intro step some
    refine List.isChain_append.mpr ⟨h.spaced step some, h'.spaced step some, ?_⟩
    rw [last, h'.first]
    rintro _ ⟨⟩ _ ⟨⟩
    simpa using (hstep step some).le

end Records

namespace Span

variable {start : Epoch ℝ} {duration current : ℝ} {ms : List (Maneuver ℝ)} {span : Span ℝ}

theorem mem_of_mem_between (h : span ∈ between start duration current ms) :
    ∀ m ∈ span.maneuver, m ∈ ms := by
  induction ms generalizing current with
  | nil =>
    rw [List.mem_singleton.mp h]
    exact nofun
  | cons m ms ih =>
    rw [between] at h
    split at h
    · exact fun m' hm' => List.mem_cons_of_mem _ (ih h m' hm')
    · rcases List.mem_cons.mp h with rfl | h
      · rintro _ ⟨⟩
        exact List.mem_cons_self
      · exact fun m' hm' => List.mem_cons_of_mem _ (ih h m' hm')

theorem length_le_of_mem_between (begun : 0 ≤ current)
    (h : span ∈ between start duration current ms) : span.final - span.start ≤ duration := by
  induction ms generalizing current with
  | nil =>
    rw [List.mem_singleton.mp h]
    exact sub_le_self _ begun
  | cons m ms ih =>
    rw [between, Exact.literal_zero] at h
    split at h
    · exact ih begun h
    · next inside =>
      obtain ⟨after, before⟩ := not_or.mp inside
      rcases List.mem_cons.mp h with rfl | h
      · exact (sub_le_self _ begun).trans (not_lt.mp before)
      · exact ih (not_lt.mp after) h

theorem between_filter (start : Epoch ℝ) (duration current : ℝ) (ms : List (Maneuver ℝ)) :
    between start duration current (ms.filter (·.isWithin start duration)) =
      between start duration current ms := by
  induction ms generalizing current with
  | nil => rfl
  | cons m ms ih =>
    by_cases within : m.isWithin start duration = true
    · rw [List.filter_cons_of_pos within, between, between, ih, ih]
    · have outside : m.time start < 0.0 ∨ m.time start > duration := by
        rw [Maneuver.isWithin, decide_eq_true_iff] at within
        rw [Exact.literal_zero]
        exact (not_and_or.mp within).imp not_le.mp not_le.mp
      rw [List.filter_cons_of_neg within, ih, between, if_pos outside]

end Span

namespace Propagator

variable {integrator : Integrator ℝ} {p : Propagator ℝ} {outputStep : Option ℝ} {start : Epoch ℝ}
  {duration : ℝ}

/-! ### Rows -/

theorem records_coastSpan (hi : integrator.Tabulates p.config.integrator p.mu)
    (hstep : ∀ step ∈ outputStep, 0 < step) {s reached : State ℝ} {span : Span ℝ}
    (lt : span.start < span.final) {rows : List (ℝ × State ℝ)}
    (h : p.coastSpan integrator outputStep s span = .ok (rows, reached)) :
    Records start span.final outputStep [] span.start s rows ∧
      rows.getLast? = some (span.final, reached) := by
  rw [coastSpan, if_pos lt] at h
  obtain ⟨times, listed, h⟩ := bind_eq_ok_iff.mp h
  obtain ⟨rows', sampled, h⟩ := bind_eq_ok_iff.mp h
  obtain ⟨rfl, rfl⟩ := Prod.mk.inj (pure_eq_ok_iff.mp h)
  obtain ⟨grid, close⟩ := Span.isGrid_of_outputTimes hstep lt listed
  obtain ⟨rfl, first⟩ := hi _ _ _ _ _ lt grid sampled
  have increasing := List.pairwise_map.mp grid.increasing
  obtain ⟨⟨t, final⟩, last, eq⟩ :=
    Option.map_eq_some_iff.mp (List.getLast?_map.symm.trans grid.last)
  obtain rfl : t = span.final := eq
  refine ⟨?_, by rw [last]; rfl⟩
  constructor
  case ordered => exact increasing.imp le_of_lt
  case first => rw [first, Maneuver.due, List.filter_nil, Maneuver.effects_nil]
  case last => exact ⟨final, last⟩
  case again => exact increasing.imp fun lt eq => absurd eq lt.ne
  case twice => exact fun t _ _ some => absurd rfl some
  case spaced => exact fun step some => List.isChain_map _ |>.mp (close step some)

theorem rows_at_end {ms : List (Maneuver ℝ)} (late : ∀ m ∈ ms, duration ≤ m.time start)
    {s : State ℝ} {rows : List (ℝ × State ℝ)}
    (flown : p.flySpans integrator outputStep s (Span.between start duration duration ms) =
      .ok rows) : rows = [] := by
  have at_once (s : State ℝ) (m : Option (Maneuver ℝ)) :
    p.coastSpan integrator outputStep s ⟨duration, duration, m⟩ = .ok ([], s) := coastSpan_of_eq rfl
  induction ms generalizing s rows with
  | nil =>
    obtain ⟨passed, reached, _, rest, coasted, -, none, rfl⟩ := flySpans_cons_eq_ok_iff.mp flown
    cases none
    cases (at_once s none).symm.trans coasted
    rfl
  | cons m ms ih =>
    obtain ⟨hm, late⟩ := List.forall_mem_cons.mp late
    rw [Span.between] at flown
    split at flown
    · exact ih late flown
    · next inside =>
      have now : m.time start = duration := le_antisymm (not_lt.mp (not_or.mp inside).2) hm
      rw [now] at flown
      obtain ⟨passed, reached, _, rest, coasted, -, onward, rfl⟩ := flySpans_cons_eq_ok_iff.mp flown
      cases (at_once s (some m)).symm.trans coasted
      exact ih late onward

theorem records_flySpans (hi : integrator.Tabulates p.config.integrator p.mu)
    (hstep : ∀ step ∈ outputStep, 0 < step) {ms : List (Maneuver ℝ)}
    (isps : ∀ m ∈ ms, m.isp ≠ some 0)
    (sorted : ms.Pairwise fun a b => a.time start ≤ b.time start) {current : ℝ}
    (lt : current < duration) (ahead : ∀ m ∈ ms, 0 ≤ m.time start → current ≤ m.time start)
    (begun : 0 ≤ current) {s : State ℝ} {rows : List (ℝ × State ℝ)}
    (flown : p.flySpans integrator outputStep s (Span.between start duration current ms) =
      .ok rows) : Records start duration outputStep ms current s rows := by
  -- There is time left at `current`. A maneuver outside is passed over, one at `current` changes
  -- the state there, and one at the end comes after the last row; any other joins two parts.
  induction ms generalizing current s rows with
  | nil =>
    obtain ⟨rows, reached, _, rest, coasted, -, none, rfl⟩ := flySpans_cons_eq_ok_iff.mp flown
    cases none
    rw [List.append_nil]
    exact (records_coastSpan hi hstep lt coasted).1
  | cons m ms ih =>
    obtain ⟨hm, isps⟩ := List.forall_mem_cons.mp isps
    obtain ⟨later, sorted⟩ := List.pairwise_cons.mp sorted
    obtain ⟨ahead_m, ahead⟩ := List.forall_mem_cons.mp ahead
    rw [Span.between, Exact.literal_zero] at flown
    split at flown
    · next outside =>
      have not_due (t : ℝ) (after : current ≤ t) (before : t < duration) :
          Maneuver.due start t (m :: ms) = Maneuver.due start t ms := by
        refine Maneuver.due_cons_of_ne ?_ ms
        rintro rfl
        exact outside.elim (begun.trans after).not_gt before.le.not_gt
      refine (ih isps sorted lt ahead begun flown).of_due ?_ fun t after before => ?_
      · rw [not_due current le_rfl lt]
      · rw [not_due t after.le before]
    · next inside =>
      obtain ⟨after_start, before_end⟩ := not_or.mp inside
      have begun_m : 0 ≤ m.time start := not_lt.mp after_start
      obtain ⟨passed, reached, next, rest, coasted, applied, onward, rfl⟩ :=
        flySpans_cons_eq_ok_iff.mp flown
      obtain rfl : next = m.effect reached := Maneuver.eq_effect_of_apply hm applied
      rcases (not_lt.mp before_end).lt_or_eq with before | at_end
      · have rest_records := ih isps sorted before (fun m' hm' _ => later m' hm') begun_m onward
        rcases (ahead_m begun_m).lt_or_eq with after | now
        · obtain ⟨passed_records, last⟩ := records_coastSpan hi hstep after coasted
          exact passed_records.append hstep last rfl later after before rest_records
        · subst now
          cases (coastSpan_of_eq rfl).symm.trans coasted
          refine rest_records.of_due ?_ fun t after _ => ?_
          · rw [Maneuver.due_cons_of_eq rfl, Maneuver.effects_cons]
          · rw [Maneuver.due_cons_of_ne after.ne]
      · have late : ∀ m' ∈ m :: ms, duration ≤ m'.time start :=
          List.forall_mem_cons.mpr ⟨at_end.ge, fun m' hm' => at_end.ge.trans (later m' hm')⟩
        have none_due (t : ℝ) (before : t < duration) : Maneuver.due start t (m :: ms) = [] :=
          Maneuver.due_eq_nil fun m' hm' => (before.trans_le (late m' hm')).ne'
        rw [at_end] at coasted onward
        rw [rows_at_end (List.forall_mem_cons.mp late).2 onward, List.append_nil]
        refine (records_coastSpan hi hstep lt coasted).1.of_due ?_ fun t _ before => ?_
        · rw [none_due current lt]
          rfl
        · rw [none_due t before]
          exact .refl _

/-! ### Success -/

theorem exists_coastSpan_iff (succeeds : integrator.Succeeds p.config.integrator p.mu)
    (hstep : ∀ step ∈ outputStep, 0 < step) (s : State ℝ) (span : Span ℝ) :
    (∃ passed, p.coastSpan integrator outputStep s span = .ok passed) ↔
      ∀ step ∈ outputStep, ⌈(span.final - span.start) / step⌉ < Span.outputLimit := by
  rcases lt_or_ge span.start span.final with lt | ge
  · rw [← Span.exists_outputTimes_iff hstep lt, coastSpan, if_pos lt]
    constructor
    · rintro ⟨passed, coasted⟩
      obtain ⟨times, listed, -⟩ := bind_eq_ok_iff.mp coasted
      exact ⟨times, listed⟩
    · rintro ⟨times, listed⟩
      obtain ⟨rows, sampled⟩ :=
        succeeds _ _ s times lt (Span.isGrid_of_outputTimes hstep lt listed).1
      exact ⟨_, bind_eq_ok_iff.mpr ⟨times, listed, bind_eq_ok_iff.mpr ⟨rows, sampled, rfl⟩⟩⟩
  · rw [coastSpan, if_neg ge.not_gt]
    refine iff_of_true ⟨_, rfl⟩ fun step some => ?_
    have none : ⌈(span.final - span.start) / step⌉ ≤ 0 := by
      rw [Int.ceil_le, Int.cast_zero]
      exact div_nonpos_of_nonpos_of_nonneg (sub_nonpos.mpr ge) (hstep step some).le
    exact none.trans_lt (by decide)

theorem exists_flySpans_iff (succeeds : integrator.Succeeds p.config.integrator p.mu)
    (hstep : ∀ step ∈ outputStep, 0 < step) {spans : List (Span ℝ)}
    (sound : ∀ span ∈ spans, ∀ m ∈ span.maneuver, m.Sound) (s : State ℝ) :
    (∃ rows, p.flySpans integrator outputStep s spans = .ok rows) ↔
      ∀ step ∈ outputStep, ∀ span ∈ spans,
        ⌈(span.final - span.start) / step⌉ < Span.outputLimit := by
  induction spans generalizing s with
  | nil => exact iff_of_true ⟨[], rfl⟩ fun _ _ => nofun
  | cons span spans ih =>
    obtain ⟨sound_span, sound⟩ := List.forall_mem_cons.mp sound
    have coasts := exists_coastSpan_iff succeeds hstep s span
    simp only [List.forall_mem_cons]
    constructor
    · rintro ⟨rows, flown⟩
      obtain ⟨passed, reached, next, rest, coasted, -, onward, -⟩ :=
        flySpans_cons_eq_ok_iff.mp flown
      exact fun step some =>
        ⟨coasts.mp ⟨_, coasted⟩ step some, (ih sound next).mp ⟨rest, onward⟩ step some⟩
    · intro fits
      obtain ⟨⟨passed, reached⟩, coasted⟩ := coasts.mpr fun step some => (fits step some).1
      obtain ⟨next, applied⟩ : ∃ next, maneuvered span reached = .ok next := by
        rw [maneuvered]
        split
        · exact ⟨_, rfl⟩
        · next m hm => exact ⟨_, Maneuver.apply_of_sound (sound_span m hm) reached⟩
      obtain ⟨rest, onward⟩ := (ih sound next).mpr fun step some => (fits step some).2
      exact ⟨_, flySpans_cons_eq_ok_iff.mpr
        ⟨passed, reached, next, rest, coasted, applied, onward, rfl⟩⟩

end Propagator

/-- The rows with their times since the start of the propagation. -/
noncomputable def Trajectory.timed (start : Epoch ℝ) (trajectory : Trajectory ℝ) :
    List (ℝ × State ℝ) :=
  trajectory.map fun point => (point.epoch.secondsSince start, point.state)

theorem Trajectory.timed_dated (start : Epoch ℝ) (rows : List (ℝ × State ℝ)) :
    Trajectory.timed start (rows.map (TrajectoryPoint.dated start)) = rows := by
  have days : (daysPerSecond : ℝ) * secondsPerDay = 1 := by
    norm_num [daysPerSecond, secondsPerDay]
  have elapsed (t : ℝ) :
      (start.mjd2000 + t * daysPerSecond - start.mjd2000) * secondsPerDay = t := by
    rw [add_sub_cancel_left, mul_assoc, days, mul_one]
  rw [timed, List.map_map]
  refine (List.map_congr_left fun row _ => ?_).trans (List.map_id rows)
  simp only [Function.comp_apply, TrajectoryPoint.dated, Epoch.secondsSince, elapsed, id]

namespace Propagator

variable {integrator : Integrator ℝ} {p : Propagator ℝ} {outputStep : Option ℝ} {start : Epoch ℝ}
  {duration : ℝ}

/-- The maneuvers outside of a propagation have no effect. -/
theorem propagate_filter {ms : List (Maneuver ℝ)} (isps : ∀ m ∈ ms, m.isp ≠ some 0) (s : State ℝ) :
    p.propagate integrator s start duration (ms.filter (·.isWithin start duration)) outputStep =
      p.propagate integrator s start duration ms outputStep := by
  have perm : (Maneuver.sort (ms.filter (·.isWithin start duration))).Perm
      ((Maneuver.sort ms).filter (·.isWithin start duration)) :=
    (Maneuver.sort_perm _).trans ((Maneuver.sort_perm ms).symm.filter _)
  have flown : Interchangeable integrator p outputStep start duration
      (Maneuver.sort (ms.filter (·.isWithin start duration)))
      ((Maneuver.sort ms).filter (·.isWithin start duration)) :=
    .of_sorted perm
      (fun m hm => isps m (List.mem_filter.mp ((Maneuver.sort_perm _).mem_iff.mp hm)).1)
      (Maneuver.pairwise_sort start _) ((Maneuver.pairwise_sort start ms).filter _)
  simp only [propagate, flown 0.0 s, Span.between_filter]

/-- A row is an epoch with its state. Rows lead from the start of a propagation to its end, through
the maneuvers that lie in it, in steps no longer than given; and they are missing only if there
would be too many of them. -/
theorem propagate_records (hi : integrator.Tabulates p.config.integrator p.mu) (hd : 0 < duration)
    (hstep : ∀ step ∈ outputStep, 0 < step) {ms : List (Maneuver ℝ)}
    (isps : ∀ m ∈ ms, m.isp ≠ some 0) (s : State ℝ) :
    let fly (ms : List (Maneuver ℝ)) := p.propagate integrator s start duration ms outputStep
    (∀ trajectory, fly ms = .ok trajectory →
        Records start duration outputStep ms 0 s (trajectory.timed start)) ∧
      fly (ms.filter (·.isWithin start duration)) = fly ms ∧
      (integrator.Succeeds p.config.integrator p.mu → (∀ m ∈ ms, m.Sound) →
        ((∃ trajectory, fly ms = .ok trajectory) ↔
          ∀ step ∈ outputStep, ∀ span ∈ Span.between start duration 0 (Maneuver.sort ms),
            ⌈(span.final - span.start) / step⌉ < Span.outputLimit)) := by
  intro fly
  have sort_perm := Maneuver.sort_perm ms
  refine ⟨fun trajectory propagated => ?_, propagate_filter isps s, fun succeeds sound => ?_⟩
  · obtain ⟨rows, flown, rfl⟩ := (propagate_eq_ok_iff hd).mp propagated
    have records := records_flySpans hi hstep (fun m hm => isps m (sort_perm.mem_iff.mp hm))
      (Maneuver.pairwise_sort start ms) hd (fun _ _ ahead => ahead) le_rfl flown
    rw [Trajectory.timed_dated]
    refine records.of_due ?_ fun t _ _ => Maneuver.due_perm sort_perm
    rw [Maneuver.effects_perm (Maneuver.due_perm sort_perm)]
  · rw [← exists_flySpans_iff succeeds hstep]
    · constructor
      · rintro ⟨trajectory, propagated⟩
        obtain ⟨rows, flown, -⟩ := (propagate_eq_ok_iff hd).mp propagated
        exact ⟨rows, flown⟩
      · rintro ⟨rows, flown⟩
        exact ⟨_, (propagate_eq_ok_iff hd).mpr ⟨rows, flown, rfl⟩⟩
    · intro span hspan m hm
      exact sound m (sort_perm.mem_iff.mp (Span.mem_of_mem_between hspan m hm))

end Propagator

namespace CircularOrbit

theorem tabulates_samplingIntegrator (config : IntegratorConfig ℝ) (mu : ℝ) :
    samplingIntegrator.Tabulates config mu := by
  intro a b s times rows _ grid sampled
  cases sampled
  obtain ⟨rest, rfl⟩ := List.head?_eq_some_iff.mp grid.first
  refine ⟨?_, ?_⟩
  · rw [List.map_map]
    exact List.map_id _
  · rw [List.map_cons, List.head?_cons, sub_self, isFlow.zero]

theorem succeeds_samplingIntegrator (config : IntegratorConfig ℝ) (mu : ℝ) :
    samplingIntegrator.Succeeds config mu :=
  fun _ _ _ _ _ _ => ⟨_, rfl⟩

theorem time_counterburn (epoch : ℝ) : (counterburn epoch).time ⟨0⟩ = epoch * secondsPerDay := by
  simp [counterburn, Maneuver.time, Epoch.secondsSince]

/-- A day with a burn at its end and one after it, and two opposite burns at noon. -/
noncomputable def burns : List (Maneuver ℝ) := [burn 2.0, counterburn 0.5, burn 1, burn 0.5]

theorem sound_burns : ∀ m ∈ burns, m.Sound := by
  simp only [burns, List.forall_mem_cons]
  exact ⟨sound_burn 2.0, sound_counterburn 0.5, sound_burn 1, sound_burn 0.5, nofun⟩

/-- Rows for every hour of the day. Those of noon differ by the mass that the two burns use up. -/
theorem propagate_burns_hourly :
    samplingIntegrator.Tabulates propagator.config.integrator propagator.mu ∧
      0 < (secondsPerDay : ℝ) ∧ (∀ step ∈ some (3600.0 : ℝ), 0 < step) ∧
      (∀ m ∈ burns, m.isp ≠ some 0) ∧
      ∃ trajectory, propagator.propagate samplingIntegrator state ⟨0⟩ secondsPerDay burns
          (some 3600.0) = .ok trajectory ∧
        ∃ before reached after, trajectory.timed ⟨0⟩ =
          before ++ (0.5 * secondsPerDay, reached) ::
            (0.5 * secondsPerDay, Maneuver.effects [counterburn 0.5, burn 0.5] reached) ::
              after := by
  have hourly : ∀ step ∈ some (3600.0 : ℝ), 0 < step := by
    rintro _ ⟨⟩
    norm_num
  have isps : ∀ m ∈ burns, m.isp ≠ some 0 := fun m hm => (sound_burns m hm).isp
  have tabulates := tabulates_samplingIntegrator propagator.config.integrator propagator.mu
  obtain ⟨records, -, returns⟩ := @Propagator.propagate_records samplingIntegrator propagator
    (some 3600.0) ⟨0⟩ secondsPerDay tabulates secondsPerDay_pos hourly burns isps state
  have succeeds := succeeds_samplingIntegrator propagator.config.integrator propagator.mu
  have few : ∀ step ∈ some (3600.0 : ℝ),
      ∀ span ∈ Span.between ⟨0⟩ secondsPerDay 0 (Maneuver.sort burns),
        ⌈(span.final - span.start) / step⌉ < Span.outputLimit := by
    rintro _ ⟨⟩ span hspan
    have hours : (span.final - span.start) / 3600.0 ≤ (24 : ℤ) := by
      rw [div_le_iff₀ (by norm_num)]
      refine (Span.length_le_of_mem_between le_rfl hspan).trans ?_
      norm_num [secondsPerDay]
    exact (Int.ceil_le.mpr hours).trans_lt (by decide)
  obtain ⟨trajectory, propagated⟩ := (returns succeeds sound_burns).mpr few
  have noon : Maneuver.due ⟨0⟩ (0.5 * secondsPerDay) burns = [counterburn 0.5, burn 0.5] := by
    norm_num [Maneuver.due, burns, time_burn, time_counterburn, secondsPerDay]
  obtain ⟨before, reached, after, rows, -⟩ := (records trajectory propagated).twice
    (0.5 * secondsPerDay) (by norm_num [secondsPerDay]) (by norm_num [secondsPerDay])
    (noon ▸ List.cons_ne_nil _ _)
  rw [noon] at rows
  exact ⟨tabulates, secondsPerDay_pos, hourly, isps, trajectory, propagated, before, reached, after,
    rows⟩

end CircularOrbit

end LowThrust
