import LowThrust.Binary64.Scalar
import LowThrust.Decimal.Binary64
import LowThrust.Proofs.Leg.Step

/-!
Where the segments of a leg come from, after a history in which the list is resized and its segments
are set one by one. The length is the one that was asked for last. A segment was put in its place
since the list last was too short to have that place; where none was, it is a placeholder if the
list ever was too short, and the segment of the first leg if it never was.
-/

namespace LowThrust

variable {α : Type}

theorem Leg.position?_eq_some_iff {length k : Nat} {index : Int} :
    position? length index = some k ↔ k < length ∧ (index = k ∨ index = k - length) := by
  grind [position?]

namespace LegCommand

variable [Scalar α] [DecimalText α]

/-! ### One command -/

/-- The list of segments is handed over as a whole. -/
def ReplacesThrottles : LegCommand α → Prop
  | configure _ | setThrottles _ | load _ | reload => True
  | _ => False

/-- The command gives the list a new length, and succeeds. -/
def Resizes (c : LegCommand α) (leg : Leg α) (size : Int) : Prop :=
  c = .resize size ∧ (c.run leg).1 = .ok ()

/-- The command sets the `k`-th segment, which it may count from the end, and succeeds. -/
def Sets (c : LegCommand α) (leg : Leg α) (k : Nat) (s : ThrottleSegment α) : Prop :=
  ∃ index : Int, c = .setThrottle index s ∧ (c.run leg).1 = .ok () ∧
    k < leg.throttles.length ∧ (index = k ∨ index = k - leg.throttles.length)

variable {c : LegCommand α} {leg : Leg α} {k k' n : Nat} {size : Int} {s s' : ThrottleSegment α}

theorem Sets.lt_length (h : c.Sets leg k s) : k < leg.throttles.length := by
  obtain ⟨-, -, -, below, -⟩ := h
  exact below

theorem Sets.unique (h : c.Sets leg k s) (h' : c.Sets leg k' s') : k = k' ∧ s = s' := by
  obtain ⟨index, rfl, -, place⟩ := h
  obtain ⟨index', same, -, place'⟩ := h'
  cases same
  have := (Leg.position?_eq_some_iff.mpr place).symm.trans (Leg.position?_eq_some_iff.mpr place')
  exact ⟨Option.some.inj this, rfl⟩

theorem Resizes.not_sets (h : c.Resizes leg size) : ¬ c.Sets leg k s := by
  rintro ⟨index, rfl, -⟩
  cases h.1

theorem Sets.not_resizes (h : c.Sets leg k s) : ¬ c.Resizes leg size := fun h' => h'.not_sets h

/-- The list is resized, or one segment is set, or it stays as it is. -/
theorem throttles_run_cases (hc : ¬ c.ReplacesThrottles) (leg : Leg α) :
    (∃ n : Nat, c.Resizes leg n ∧ (c.run leg).2.throttles =
      leg.throttles.take n ++ List.replicate (n - leg.throttles.length) .placeholder) ∨
    (∃ k s, c.Sets leg k s ∧ (c.run leg).2.throttles = leg.throttles.set k s) ∨
    (∀ size, ¬ c.Resizes leg size) ∧ (∀ k s, ¬ c.Sets leg k s) ∧
      (c.run leg).2.throttles = leg.throttles := by
  simp only [Resizes, Sets, run_eq]
  cases c with
  | resize size =>
    rcases Int.lt_or_le size 0 with negative | natural
    · right; right
      simp [written, negative]
    · obtain ⟨n, rfl⟩ := Int.eq_ofNat_of_zero_le natural
      left
      rw [written, if_neg (Int.not_lt.mpr natural)]
      exact ⟨n, ⟨rfl, rfl⟩, rfl⟩
  | setThrottle index s =>
    right
    rw [written]
    cases h : Leg.position? leg.throttles.length index with
    | some k => exact .inl ⟨k, s, ⟨index, rfl, rfl, Leg.position?_eq_some_iff.mp h⟩, rfl⟩
    | none => right; simp
  | configure | setThrottles | load | reload => exact absurd trivial hc
  | setStartEpoch t =>
    refine .inr (.inr ⟨by simp, by simp, ?_⟩)
    rw [written]
    cases Leg.checkEpochs t leg.finalEpoch <;> rfl
  | setFinalEpoch t =>
    refine .inr (.inr ⟨by simp, by simp, ?_⟩)
    rw [written]
    cases Leg.checkEpochs leg.startEpoch t <;> rfl
  | setMu mu =>
    refine .inr (.inr ⟨by simp, by simp, ?_⟩)
    rw [written]
    cases Leg.checkMu mu <;> rfl
  | setStartState | setFinalState | setSpacecraft | setHighFidelity =>
    exact .inr (.inr ⟨by simp, by simp, rfl⟩)

theorem length_throttles_run (hc : ¬ c.ReplacesThrottles) (leg : Leg α) :
    (∃ n : Nat, c.Resizes leg n ∧ (c.run leg).2.throttles.length = n) ∨
    (∀ size, ¬ c.Resizes leg size) ∧ (c.run leg).2.throttles.length = leg.throttles.length := by
  obtain ⟨n, resizes, after⟩ | ⟨k, s, sets, after⟩ | ⟨not_resizes, -, after⟩ :=
    throttles_run_cases hc leg
  · refine .inl ⟨n, resizes, ?_⟩
    rw [after, List.length_append, List.length_take, List.length_replicate]
    omega
  · exact .inr ⟨fun size => sets.not_resizes, by rw [after, List.length_set]⟩
  · exact .inr ⟨not_resizes, by rw [after]⟩

/-- A segment has just been set, or has filled up the list, or was there before. -/
theorem getElem?_throttles_run (hc : ¬ c.ReplacesThrottles)
    (h : (c.run leg).2.throttles[k]? = some s) :
    c.Sets leg k s ∨ (leg.throttles.length ≤ k ∧ s = .placeholder) ∨
      (∀ s', ¬ c.Sets leg k s') ∧ leg.throttles[k]? = some s := by
  obtain ⟨n, resizes, after⟩ | ⟨p, s', sets, after⟩ | ⟨-, not_sets, after⟩ :=
    throttles_run_cases hc leg
  · right
    rw [after] at h
    rcases Nat.lt_or_ge k leg.throttles.length with kept | filled
    · refine .inr ⟨fun s' => resizes.not_sets, ?_⟩
      grind
    · refine .inl ⟨filled, ?_⟩
      grind
  · rw [after] at h
    by_cases place : p = k
    · subst place
      left
      have := h.symm.trans (List.getElem?_set_self sets.lt_length)
      cases Option.some.inj this
      exact sets
    · rw [List.getElem?_set_ne place] at h
      exact .inr (.inr ⟨fun s' sets' => place (sets.unique sets').1, h⟩)
  · rw [after] at h
    exact .inr (.inr ⟨not_sets k, h⟩)

/-! ### Histories -/

section History

variable (leg : Leg α) (commands : List (LegCommand α))

/-- The leg before the `i`-th command, or after all of them. -/
def legAt (i : Nat) : Leg α := runAll leg (commands.take i)

/-- The `i`-th command gives the list a new length. -/
def ResizesAt (i : Nat) (size : Int) : Prop :=
  ∃ c, commands[i]? = some c ∧ c.Resizes (legAt leg commands i) size

/-- The `i`-th command sets the `k`-th segment. -/
def SetsAt (i k : Nat) (s : ThrottleSegment α) : Prop :=
  ∃ c, commands[i]? = some c ∧ c.Sets (legAt leg commands i) k s

/-- There is a `k`-th segment from the `i`-th command on. -/
def LastsFrom (i k : Nat) : Prop := ∀ j ≥ i, k < (legAt leg commands j).throttles.length

/-- What the length goes back to. -/
inductive SizeOrigin : Nat → Prop
  | resized (i n : Nat) (resizes : ResizesAt leg commands i n)
      (last : ∀ j > i, ∀ size, ¬ ResizesAt leg commands j size) : SizeOrigin n
  | kept (never : ∀ i size, ¬ ResizesAt leg commands i size) : SizeOrigin leg.throttles.length

/-- What the `k`-th segment goes back to. -/
inductive SegmentOrigin (k : Nat) : ThrottleSegment α → Prop
  | set (i : Nat) (s : ThrottleSegment α) (sets : SetsAt leg commands i k s)
      (lasts : LastsFrom leg commands i k)
      (last : ∀ j > i, ∀ s', ¬ SetsAt leg commands j k s') : SegmentOrigin k s
  | filled (i : Nat) (short : (legAt leg commands i).throttles.length ≤ k)
      (none_lasts : ∀ j s, SetsAt leg commands j k s → ¬ LastsFrom leg commands j k) :
      SegmentOrigin k .placeholder
  | kept (s : ThrottleSegment α) (first : leg.throttles[k]? = some s)
      (lasts : LastsFrom leg commands 0 k)
      (none_lasts : ∀ j s', SetsAt leg commands j k s' → ¬ LastsFrom leg commands j k) :
      SegmentOrigin k s

end History

variable {commands : List (LegCommand α)} {i : Nat}

theorem resizesAt_cons_zero_iff :
    ResizesAt leg (c :: commands) 0 size ↔ c.Resizes leg size := by
  simp [ResizesAt, legAt, runAll]

theorem setsAt_cons_zero_iff : SetsAt leg (c :: commands) 0 k s ↔ c.Sets leg k s := by
  simp [SetsAt, legAt, runAll]

/-- Time starts anew after the first command. -/
theorem resizesAt_cons_succ_iff :
    ResizesAt leg (c :: commands) (i + 1) size ↔ ResizesAt (c.run leg).2 commands i size := Iff.rfl

theorem setsAt_cons_succ_iff :
    SetsAt leg (c :: commands) (i + 1) k s ↔ SetsAt (c.run leg).2 commands i k s := Iff.rfl

theorem lastsFrom_cons_zero_iff : LastsFrom leg (c :: commands) 0 k ↔
    k < leg.throttles.length ∧ LastsFrom (c.run leg).2 commands 0 k := by
  constructor
  · intro h
    exact ⟨h 0 (Nat.zero_le 0), fun j _ => h (j + 1) (Nat.zero_le _)⟩
  · rintro ⟨now, later⟩ j -
    cases j with
    | zero => exact now
    | succ j => exact later j (Nat.zero_le j)

theorem lastsFrom_cons_succ_iff :
    LastsFrom leg (c :: commands) (i + 1) k ↔ LastsFrom (c.run leg).2 commands i k := by
  constructor
  · intro h j hj
    exact h (j + 1) (Nat.succ_le_succ hj)
  · intro h j hj
    obtain ⟨j, rfl⟩ := Nat.exists_eq_add_of_lt hj
    exact h (i + j) (Nat.le_add_right i j)

theorem SizeOrigin.cons (hc : ¬ c.ReplacesThrottles)
    (origin : SizeOrigin (c.run leg).2 commands n) : SizeOrigin leg (c :: commands) n := by
  cases origin with
  | resized i n resizes last =>
    refine .resized (i + 1) n (resizesAt_cons_succ_iff.mpr resizes) ?_
    rintro (_ | j) hj size
    · omega
    · rw [resizesAt_cons_succ_iff]
      exact last j (Nat.lt_of_succ_lt_succ hj) size
  | kept never =>
    obtain ⟨n, resizes, length⟩ | ⟨not_resizes, length⟩ := length_throttles_run hc leg
    · rw [length]
      refine .resized 0 n (resizesAt_cons_zero_iff.mpr resizes) ?_
      rintro (_ | j) hj size
      · omega
      · rw [resizesAt_cons_succ_iff]
        exact never j size
    · rw [length]
      refine .kept ?_
      rintro (_ | i) size
      · rw [resizesAt_cons_zero_iff]
        exact not_resizes size
      · rw [resizesAt_cons_succ_iff]
        exact never i size

theorem sizeOrigin_runAll (hc : ∀ c ∈ commands, ¬ c.ReplacesThrottles) :
    SizeOrigin leg commands (runAll leg commands).throttles.length := by
  induction commands generalizing leg with
  | nil => exact .kept fun i size => by simp [ResizesAt]
  | cons c commands ih =>
    rw [List.forall_mem_cons] at hc
    exact (ih hc.2).cons hc.1

/-- If no command that follows sets the segment for good, and the first one does not either, none of
them does. -/
theorem not_lastsFrom_cons (now : ∀ s, c.Sets leg k s → ¬ LastsFrom leg (c :: commands) 0 k)
    (later : ∀ j s, SetsAt (c.run leg).2 commands j k s → ¬ LastsFrom (c.run leg).2 commands j k)
    (j : Nat) (s : ThrottleSegment α) (sets : SetsAt leg (c :: commands) j k s) :
    ¬ LastsFrom leg (c :: commands) j k := by
  cases j with
  | zero => exact now s (setsAt_cons_zero_iff.mp sets)
  | succ j =>
    rw [lastsFrom_cons_succ_iff]
    exact later j s sets

theorem SegmentOrigin.cons (hc : ¬ c.ReplacesThrottles)
    (origin : SegmentOrigin (c.run leg).2 commands k s) :
    SegmentOrigin leg (c :: commands) k s := by
  cases origin with
  | set i s sets lasts last =>
    refine .set (i + 1) s (setsAt_cons_succ_iff.mpr sets) (lastsFrom_cons_succ_iff.mpr lasts) ?_
    rintro (_ | j) hj s'
    · omega
    · rw [setsAt_cons_succ_iff]
      exact last j (Nat.lt_of_succ_lt_succ hj) s'
  | filled i short none_lasts =>
    refine .filled (i + 1) short (not_lastsFrom_cons ?_ none_lasts)
    intro s _ lasts
    exact absurd (lasts (i + 1) (Nat.zero_le _)) (Nat.not_lt.mpr short)
  | kept s first lasts none_lasts =>
    have unset (j : Nat) (s' : ThrottleSegment α) : ¬ SetsAt (c.run leg).2 commands j k s' :=
      fun sets => none_lasts j s' sets fun j' _ => lasts j' (Nat.zero_le j')
    rcases getElem?_throttles_run hc first with sets | ⟨short, rfl⟩ | ⟨not_sets, before⟩
    · refine .set 0 s (setsAt_cons_zero_iff.mpr sets)
        (lastsFrom_cons_zero_iff.mpr ⟨sets.lt_length, lasts⟩) ?_
      rintro (_ | j) hj s'
      · omega
      · rw [setsAt_cons_succ_iff]
        exact unset j s'
    · refine .filled 0 short (not_lastsFrom_cons ?_ none_lasts)
      intro s sets
      exact absurd sets.lt_length (Nat.not_lt.mpr short)
    · have below : k < leg.throttles.length := (List.getElem?_eq_some_iff.mp before).1
      exact .kept s before (lastsFrom_cons_zero_iff.mpr ⟨below, lasts⟩)
        (not_lastsFrom_cons (fun s' sets => absurd sets (not_sets s')) none_lasts)

theorem segmentOrigin_runAll (hc : ∀ c ∈ commands, ¬ c.ReplacesThrottles)
    (h : (runAll leg commands).throttles[k]? = some s) : SegmentOrigin leg commands k s := by
  induction commands generalizing leg with
  | nil =>
    have below : k < leg.throttles.length := (List.getElem?_eq_some_iff.mp h).1
    have untouched (i : Nat) : legAt leg [] i = leg := by rw [legAt, List.take_nil]; rfl
    refine .kept s h ?_ fun i s' sets => by simp [SetsAt] at sets
    intro j _
    rwa [untouched]
  | cons c commands ih =>
    rw [List.forall_mem_cons] at hc
    exact (ih hc.2 h).cons hc.1

/-- A segment goes back to one thing only. -/
theorem SegmentOrigin.unique (h : SegmentOrigin leg commands k s)
    (h' : SegmentOrigin leg commands k s') : s = s' := by
  cases h with
  | set i s sets lasts last =>
    cases h' with
    | set i' s' sets' lasts' last' =>
      obtain earlier | rfl | later := Nat.lt_trichotomy i i'
      · exact absurd sets' (last i' earlier s')
      · obtain ⟨c, hc, sets⟩ := sets
        obtain ⟨c', hc', sets'⟩ := sets'
        cases Option.some.inj (hc.symm.trans hc')
        exact (sets.unique sets').2
      · exact absurd sets (last' i later s)
    | filled i' short none_lasts => exact absurd lasts (none_lasts i s sets)
    | kept s' first lasts' none_lasts => exact absurd lasts (none_lasts i s sets)
  | filled i short none_lasts =>
    cases h' with
    | set i' s' sets lasts last => exact absurd lasts (none_lasts i' s' sets)
    | filled => rfl
    | kept s' first lasts =>
      exact absurd (lasts i (Nat.zero_le i)) (Nat.not_lt.mpr short)
  | kept s first lasts none_lasts =>
    cases h' with
    | set i' s' sets lasts' last => exact absurd lasts' (none_lasts i' s' sets)
    | filled i short => exact absurd (lasts i (Nat.zero_le i)) (Nat.not_lt.mpr short)
    | kept s' first' => exact Option.some.inj (first.symm.trans first')

/-- The length goes back to the last command that asked for one. A segment goes back to the last
command that set it since the list last had no place for it, else to the placeholder that filled the
place, else to the first leg. -/
theorem throttles_runAll (leg : Leg α) (commands : List (LegCommand α))
    (hc : ∀ c ∈ commands, ¬ c.ReplacesThrottles) :
    SizeOrigin leg commands (runAll leg commands).throttles.length ∧
      ∀ k < (runAll leg commands).throttles.length, ∀ s,
        (runAll leg commands).throttles[k]? = some s ↔ SegmentOrigin leg commands k s := by
  refine ⟨sizeOrigin_runAll hc, ?_⟩
  intro k hk s
  refine ⟨segmentOrigin_runAll hc, ?_⟩
  intro origin
  have there := List.getElem?_eq_getElem hk
  rwa [origin.unique (segmentOrigin_runAll hc there)]

/-- The last segment is set and cut off, the list filled up again, and then the second one is set
from the end; two commands fail in between. -/
theorem throttles_runAll_sixCommands :
    let a : ThrottleSegment Float := ⟨⟨0.0⟩, ⟨1.0⟩, ⟨1.0, 0.0, 0.0⟩⟩
    let b : ThrottleSegment Float := ⟨⟨1.0⟩, ⟨2.0⟩, ⟨0.0, 1.0, 0.0⟩⟩
    let leg : Leg Float := { config := .default, throttles := [a, a, a] }
    let commands : List (LegCommand Float) := [.setThrottle (-1) b, .resize 2, .resize 4,
      .resize (-1), .setThrottle 4 b, .setThrottle (-3) b]
    (∀ c ∈ commands, ¬ c.ReplacesThrottles) ∧
      (runAll leg commands).throttles = [a, b, .placeholder, .placeholder] ∧
      SizeOrigin leg commands 4 ∧ SegmentOrigin leg commands 0 a ∧
      SegmentOrigin leg commands 1 b ∧ SegmentOrigin leg commands 2 .placeholder := by
  intro a b leg commands
  have hc : ∀ c ∈ commands, ¬ c.ReplacesThrottles := by
    simp [commands, ReplacesThrottles]
  have after : (runAll leg commands).throttles = [a, b, .placeholder, .placeholder] := by
    simp [leg, commands, runAll, run_eq, written, Leg.position?, List.replicate]
  obtain ⟨size, segments⟩ := throttles_runAll leg commands hc
  rw [after] at size segments
  exact ⟨hc, after, size, (segments 0 (by decide) a).mp rfl, (segments 1 (by decide) b).mp rfl,
    (segments 2 (by decide) .placeholder).mp rfl⟩

end LegCommand

end LowThrust
