import Mathlib
import LowThrust.Integrator.DormandPrince
import LowThrust.Proofs.Binary64.Order
import LowThrust.Proofs.Propagation.Maneuvers

/-!
The order in which the maneuvers of a propagation are given. They are put in the order of their
epochs, which leaves no choice if these differ. Of maneuvers at the same epoch the effects commute,
in exact arithmetic, and between them no row is taken down.
-/

namespace LowThrust

open Scalar

instance : OrdersFinite ℝ where
  lt_asymm := lt_asymm
  lt_or_lt {x y _} _ lt := (lt_or_ge x y).imp_right fun le => le.trans_lt lt
  lt_or_beq_or_lt {x y} _ _ := by
    rw [Exact.beq_iff]
    exact lt_trichotomy x y

/-! ### Different epochs -/

-- Numbers that are not finite compare to nothing, so the order is one of the finite epochs alone.
theorem pairwise_mergeSort_of_forall {β : Type} {le : β → β → Bool} {P : β → Prop}
    (trans : ∀ a b c, P a → P b → P c → le a b = true → le b c = true → le a c = true)
    (total : ∀ a b, P a → P b → (le a b || le b a) = true) {l : List β} (h : ∀ b ∈ l, P b) :
    (l.mergeSort le).Pairwise fun a b => le a b = true := by
  let le' (a b : {b // P b}) : Bool := le a b
  have sorted : ((l.attachWith P h).mergeSort le').Pairwise fun a b => le' a b = true :=
    List.pairwise_mergeSort (fun ⟨a, ha⟩ ⟨b, hb⟩ ⟨c, hc⟩ => trans a b c ha hb hc)
      (fun ⟨a, ha⟩ ⟨b, hb⟩ => total a b ha hb) _
  have same : ∀ a ∈ l.attachWith P h, ∀ b ∈ l.attachWith P h, le' a b = le a.val b.val :=
    fun a _ b _ => rfl
  rw [← List.attachWith_map_subtype_val h, ← List.map_mergeSort same]
  exact List.pairwise_map.mpr sorted

namespace Maneuver

variable {α : Type} [Scalar α] [OrdersFinite α] {ms ms' : List (Maneuver α)}

theorem sort_of_isFinite (finite : ∀ m ∈ ms, isFinite m.epoch.mjd2000 = true) :
    sort ms = ms.mergeSort fun a b => !decide (b.epoch < a.epoch) := by
  have numbers : (ms.all fun m => m.epoch.same m.epoch) = true :=
    List.all_eq_true.mpr fun m hm => OrdersFinite.beq_self (finite m hm)
  rw [sort, if_pos numbers]

/-- Different epochs leave one order. -/
theorem pairwise_sort_of_distinct (finite : ∀ m ∈ ms, isFinite m.epoch.mjd2000 = true)
    (distinct : ms.Pairwise fun a b => a.epoch < b.epoch ∨ b.epoch < a.epoch) :
    (sort ms).Pairwise fun a b => a.epoch < b.epoch := by
  let numbered (m : Maneuver α) : Prop := isFinite m.epoch.mjd2000 = true
  let le (a b : Maneuver α) : Bool := !decide (b.epoch < a.epoch)
  have le_iff (a b : Maneuver α) : le a b = true ↔ ¬ b.epoch < a.epoch := by simp [le]
  have trans (a b c : Maneuver α) : numbered a → numbered b → numbered c → le a b = true →
      le b c = true → le a c = true := by
    simp only [le_iff]
    intro _ hb _ hab hbc lt
    exact (OrdersFinite.lt_or_lt hb lt).elim hbc hab
  have total (a b : Maneuver α) : numbered a → numbered b → (le a b || le b a) = true := by
    simp only [Bool.or_eq_true, le_iff]
    intro _ _
    by_cases lt : b.epoch < a.epoch
    · exact .inr (OrdersFinite.lt_asymm lt)
    · exact .inl lt
  have sorted := pairwise_mergeSort_of_forall trans total finite
  have apart := (sort_perm ms).symm.pairwise distinct Or.symm
  rw [sort_of_isFinite finite] at apart ⊢
  exact (sorted.and apart).imp fun {a b} h => h.2.resolve_right ((le_iff a b).mp h.1)

theorem sort_eq_of_perm (perm : ms.Perm ms')
    (finite : ∀ m ∈ ms, isFinite m.epoch.mjd2000 = true)
    (distinct : ms.Pairwise fun a b => a.epoch.same b.epoch = false) : sort ms = sort ms' := by
  have finite' : ∀ m ∈ ms', isFinite m.epoch.mjd2000 = true :=
    fun m hm => finite m (perm.mem_iff.mpr hm)
  have apart : ms.Pairwise fun a b => a.epoch < b.epoch ∨ b.epoch < a.epoch := by
    refine distinct.imp_of_mem fun {a b} ha hb differ => ?_
    rcases OrdersFinite.lt_or_beq_or_lt (finite a ha) (finite b hb) with below | same | above
    · exact .inl below
    · exact absurd (differ.symm.trans same) Bool.false_ne_true
    · exact .inr above
  have sorted := pairwise_sort_of_distinct finite apart
  have sorted' := pairwise_sort_of_distinct finite' (perm.pairwise apart Or.symm)
  refine List.Perm.eq_of_pairwise (fun a b _ _ below above => ?_) sorted sorted' ?_
  · exact absurd above (OrdersFinite.lt_asymm below)
  · exact (sort_perm ms).trans (perm.trans (sort_perm ms').symm)

end Maneuver

/-! ### Equal epochs -/

-- A maneuver whose components are not those of a vector fails in the same way before and after.
theorem Maneuver.apply_comm {m m' : Maneuver ℝ} (hm : m.isp ≠ some 0) (hm' : m'.isp ≠ some 0)
    {β : Type} (s : State ℝ) (k : State ℝ → Except (Fault ℝ) β) :
    (do let s' ← m.apply s; let s'' ← m'.apply s'; k s'') =
      (do let s' ← m'.apply s; let s'' ← m.apply s'; k s'') := by
  simp only [apply, massRatio_of_isp_ne hm, massRatio_of_isp_ne hm']
  cases Vec3.spread? m.dv with
  | none =>
    cases Vec3.spread? m'.dv with
    | none => rfl
    | some dv' => rfl
  | some dv =>
    cases Vec3.spread? m'.dv with
    | none => rfl
    | some dv' =>
      simp only [bind, Except.bind, pure, Except.pure, Vec3.add_real, add_right_comm,
        mul_right_comm]

namespace Propagator

/-- From any time and state on, the maneuvers lead to the same rows or to the same fault. -/
def Interchangeable {α : Type} [Scalar α] (integrator : Integrator α) (p : Propagator α)
    (outputStep : Option α) (start : Epoch α) (duration : α) (ms ms' : List (Maneuver α)) : Prop :=
  ∀ current s,
    p.flySpans integrator outputStep s (Span.between start duration current ms) =
      p.flySpans integrator outputStep s (Span.between start duration current ms')

namespace Interchangeable

variable {integrator : Integrator ℝ} {p : Propagator ℝ} {outputStep : Option ℝ} {start : Epoch ℝ}
  {duration : ℝ} {ms ms' ms'' : List (Maneuver ℝ)}

theorem refl (ms : List (Maneuver ℝ)) :
    Interchangeable integrator p outputStep start duration ms ms :=
  fun _ _ => rfl

theorem symm (h : Interchangeable integrator p outputStep start duration ms ms') :
    Interchangeable integrator p outputStep start duration ms' ms :=
  fun current s => (h current s).symm

theorem trans (h : Interchangeable integrator p outputStep start duration ms ms')
    (h' : Interchangeable integrator p outputStep start duration ms' ms'') :
    Interchangeable integrator p outputStep start duration ms ms'' :=
  fun current s => (h current s).trans (h' current s)

theorem cons (m : Maneuver ℝ) (h : Interchangeable integrator p outputStep start duration ms ms') :
    Interchangeable integrator p outputStep start duration (m :: ms) (m :: ms') := by
  intro current s
  rw [Span.between, Span.between]
  split
  · exact h current s
  · simp only [flySpans, h (m.time start)]

/-- Between two maneuvers at one time nothing is flown. -/
theorem swap {m m' : Maneuver ℝ} (hm : m.isp ≠ some 0) (hm' : m'.isp ≠ some 0)
    (same : m.time start = m'.time start) (ms : List (Maneuver ℝ)) :
    Interchangeable integrator p outputStep start duration (m :: m' :: ms) (m' :: m :: ms) := by
  intro current s
  simp only [Span.between, same]
  split
  · rfl
  · have at_once (m : Maneuver ℝ) (s : State ℝ) : p.coastSpan integrator outputStep s
        ⟨m'.time start, m'.time start, some m⟩ = pure ([], s) := coastSpan_of_eq rfl
    have coasts : p.coastSpan integrator outputStep s ⟨current, m'.time start, some m⟩ =
        p.coastSpan integrator outputStep s ⟨current, m'.time start, some m'⟩ := rfl
    simp only [flySpans, coasts, at_once, pure_bind, bind_assoc, Maneuver.apply_comm hm hm']

theorem middle {m : Maneuver ℝ} (hm : m.isp ≠ some 0) {passed : List (Maneuver ℝ)}
    (isps : ∀ m' ∈ passed, m'.isp ≠ some 0) (same : ∀ m' ∈ passed, m'.time start = m.time start)
    (ms : List (Maneuver ℝ)) :
    Interchangeable integrator p outputStep start duration (passed ++ m :: ms)
      (m :: (passed ++ ms)) := by
  induction passed with
  | nil => exact refl _
  | cons m' passed ih =>
    obtain ⟨hm', isps⟩ := List.forall_mem_cons.mp isps
    obtain ⟨same', same⟩ := List.forall_mem_cons.mp same
    exact ((ih isps same).cons m').trans (swap hm' hm same' _)

/-- Two orders by time differ only among maneuvers at one time. -/
theorem of_sorted (perm : ms.Perm ms') (isps : ∀ m ∈ ms, m.isp ≠ some 0)
    (sorted : ms.Pairwise fun a b => a.time start ≤ b.time start)
    (sorted' : ms'.Pairwise fun a b => a.time start ≤ b.time start) :
    Interchangeable integrator p outputStep start duration ms ms' := by
  induction ms generalizing ms' with
  | nil =>
    rw [perm.nil_eq]
    exact refl _
  | cons m ms ih =>
    obtain ⟨passed, rest, rfl⟩ := List.append_of_mem (perm.mem_iff.mp List.mem_cons_self)
    have perm_rest : ms.Perm (passed ++ rest) := (perm.trans List.perm_middle).cons_inv
    have isps_passed : ∀ m' ∈ passed, m'.isp ≠ some 0 :=
      fun m' hm' => isps m' (perm.mem_iff.mpr (List.mem_append_left _ hm'))
    obtain ⟨first, sorted⟩ := List.pairwise_cons.mp sorted
    obtain ⟨-, -, across⟩ := List.pairwise_append.mp sorted'
    have same : ∀ m' ∈ passed, m'.time start = m.time start := by
      intro m' hm'
      refine le_antisymm (across m' hm' m List.mem_cons_self) (first m' ?_)
      exact perm_rest.mem_iff.mpr (List.mem_append_left _ hm')
    have sorted_rest := sorted'.sublist ((List.sublist_cons_self m rest).append_left passed)
    obtain ⟨hm, isps⟩ := List.forall_mem_cons.mp isps
    exact ((ih perm_rest isps sorted sorted_rest).cons m).trans
      (middle hm isps_passed same rest).symm

end Interchangeable

/-- The order in which maneuvers are given does not matter: in no arithmetic if their epochs are
finite and differ, and in exact arithmetic at all. -/
theorem propagate_perm :
    (∀ {α : Type} [Scalar α] [OrdersFinite α] (integrator : Integrator α) (p : Propagator α)
        (s : State α) (start : Epoch α) (duration : α) (outputStep : Option α)
        {ms ms' : List (Maneuver α)}, ms.Perm ms' →
      (∀ m ∈ ms, isFinite m.epoch.mjd2000 = true) →
      (ms.Pairwise fun a b => a.epoch.same b.epoch = false) →
        p.propagate integrator s start duration ms outputStep =
          p.propagate integrator s start duration ms' outputStep) ∧
    ∀ (integrator : Integrator ℝ) (p : Propagator ℝ) (s : State ℝ) (start : Epoch ℝ) (duration : ℝ)
        (outputStep : Option ℝ) {ms ms' : List (Maneuver ℝ)}, ms.Perm ms' →
      (∀ m ∈ ms, m.isp ≠ some 0) →
        p.propagate integrator s start duration ms outputStep =
          p.propagate integrator s start duration ms' outputStep := by
  constructor
  · intro α _ _ integrator p s start duration outputStep ms ms' perm finite distinct
    rw [propagate, propagate, Maneuver.sort_eq_of_perm perm finite distinct]
  · intro integrator p s start duration outputStep ms ms' perm isps
    have perm_sort : (Maneuver.sort ms).Perm (Maneuver.sort ms') :=
      (Maneuver.sort_perm ms).trans (perm.trans (Maneuver.sort_perm ms').symm)
    have isps : ∀ m ∈ Maneuver.sort ms, m.isp ≠ some 0 :=
      fun m hm => isps m ((Maneuver.sort_perm ms).mem_iff.mp hm)
    have flown : Interchangeable integrator p outputStep start duration (Maneuver.sort ms)
        (Maneuver.sort ms') :=
      .of_sorted perm_sort isps (Maneuver.pairwise_sort start ms) (Maneuver.pairwise_sort start ms')
    simp only [propagate, flown 0.0 s]

end Propagator

namespace CircularOrbit

theorem exists_propagate (p : Propagator ℝ) (s : State ℝ) (start : Epoch ℝ) {duration : ℝ}
    (hd : 0 < duration) {ms : List (Maneuver ℝ)} (sound : ∀ m ∈ ms, m.Sound) :
    ∃ trajectory, p.propagate samplingIntegrator s start duration ms none = .ok trajectory := by
  obtain ⟨final, goes⟩ := exists_flight p start duration 0 s
    ((Maneuver.sort ms).filter (·.isBeforeEnd start duration))
  obtain ⟨trajectory, propagated, -⟩ := bind_eq_ok_iff.mp
    ((Propagator.final_propagate_eq_ok_iff_flight
      (samples_samplingIntegrator p.config.integrator p.mu) hd sound s final).mpr goes)
  exact ⟨trajectory, propagated⟩

/-- A burn that takes back the change of velocity by another. -/
noncomputable def counterburn (epoch : ℝ) : Maneuver ℝ := ⟨⟨epoch⟩, [0, -0.5, 0], some 300.0⟩

theorem sound_counterburn (epoch : ℝ) : (counterburn epoch).Sound where
  components := ⟨_, rfl⟩
  isp := by norm_num [counterburn]

/-- Two impulses of a day in binary arithmetic, and in exact arithmetic two at its start. -/
theorem propagate_swapped :
    let up (epoch : Float) : Maneuver Float := ⟨⟨epoch⟩, [0.0, 0.1, 0.0], some 300.0⟩
    let fly (ms : List (Maneuver Float)) :=
      (⟨398600.4418, .default⟩ : Propagator Float).propagate DormandPrince.integrator
        ⟨⟨⟨7000.0, 0.0, 0.0⟩, ⟨0.0, 7.5, 0.0⟩⟩, 1000.0⟩ ⟨9500.0⟩ 86400.0 ms (some 600.0)
    let coast (ms : List (Maneuver ℝ)) :=
      propagator.propagate samplingIntegrator state ⟨0⟩ secondsPerDay ms none
    fly [up 9500.75, up 9500.25] = fly [up 9500.25, up 9500.75] ∧
      ∃ trajectory, coast [burn 0, counterburn 0] = .ok trajectory ∧
        coast [counterburn 0, burn 0] = .ok trajectory := by
  intro up fly coast
  obtain ⟨apart, together⟩ := Propagator.propagate_perm
  constructor
  · exact apart _ _ _ _ _ _ (List.Perm.swap _ _ _) (by decide) (by decide)
  · have sound : ∀ m ∈ [burn 0, counterburn 0], m.Sound := by
      intro m hm
      rcases List.mem_pair.mp hm with rfl | rfl
      · exact sound_burn 0
      · exact sound_counterburn 0
    obtain ⟨trajectory, propagated⟩ := exists_propagate propagator state ⟨0⟩ secondsPerDay_pos sound
    have swapped : coast [burn 0, counterburn 0] = coast [counterburn 0, burn 0] :=
      together _ _ _ _ _ _ (List.Perm.swap _ _ _) fun m hm => (sound m hm).isp
    exact ⟨trajectory, propagated, swapped.symm.trans propagated⟩

end CircularOrbit

end LowThrust
