import LowThrust.Proofs.Shooting.Masses

/-!
The propellant that impulses use. Thrust over the whole of a segment uses up propellant in a
constant flow. The impulse that stands for it uses at most as much on the way forward, and on the
way back it gathers at least as much.
-/

namespace LowThrust

/-- Mass in kg that a constant flow under a fixed throttle uses over a segment. -/
def Spacecraft.propellant {α : Type} [Scalar α] (sc : Spacecraft α) (s : ThrottleSegment α) : α :=
  sc.thrust * s.duration * s.norm / (sc.isp * standardGravity)

theorem Vec3.norm_smul_real (a : ℝ) (v : Vec3 ℝ) : (a * v).norm = |a| * v.norm := by
  have squares : (a * v).dot (a * v) = a ^ 2 * v.dot v := by
    simp only [dot_real, smul_real]
    ring
  rw [norm_real, squares, Real.sqrt_mul (sq_nonneg a), Real.sqrt_sq_eq_abs, norm_real]

theorem sum_map_neg {ι : Type} (f : ι → ℝ) (l : List ι) :
    (l.map fun i => -f i).sum = -(l.map f).sum := by
  rw [List.sum_neg, List.map_map]
  rfl

/-! ### Impulses -/

namespace Engine

/-- What a constant flow uses over a segment; negative for an engine that runs backward. -/
noncomputable def flow (e : Engine ℝ) (s : ThrottleSegment ℝ) : ℝ :=
  |e.thrust| * s.duration * s.norm / e.exhaust

theorem flow_ofSpacecraft {sc : Spacecraft ℝ} (thrust : 0 ≤ sc.thrust) (s : ThrottleSegment ℝ) :
    (ofSpacecraft sc).flow s = sc.propellant s := by
  rw [flow, ofSpacecraft, abs_of_nonneg thrust, Spacecraft.propellant]

theorem flow_reversed (e : Engine ℝ) (s : ThrottleSegment ℝ) : e.reversed.flow s = -e.flow s := by
  rw [flow, flow, reversed, abs_neg, div_neg]

variable {e : Engine ℝ} {mass : ℝ} {segments : List (ThrottleSegment ℝ)}

theorem massAfter_impulse (pos : 0 < mass) {s : ThrottleSegment ℝ} (forward : 0 ≤ s.duration) :
    e.massAfter mass (e.impulse mass s) = mass * Real.exp (-(e.flow s / mass)) := by
  have size : (e.impulse mass s).norm = |e.thrust| * s.duration * s.norm / mass := by
    rw [impulse, Vec3.norm_smul_real, abs_mul, abs_div, abs_of_pos pos, abs_of_nonneg forward]
    change |e.thrust| / mass * s.duration * s.norm = _
    ring
  rw [massAfter, size, flow, Exact.exp_eq]
  congr 2
  ring

theorem massAfter_pos (pos : 0 < mass) {s : ThrottleSegment ℝ} (forward : 0 ≤ s.duration) :
    0 < e.massAfter mass (e.impulse mass s) := by
  rw [massAfter_impulse pos forward]
  positivity

theorem massThrough_append (front back : List (ThrottleSegment ℝ)) :
    e.massThrough mass (front ++ back) = e.massThrough (e.massThrough mass front) back :=
  List.foldl_append

theorem massThrough_pos (pos : 0 < mass) (forward : ∀ s ∈ segments, 0 ≤ s.duration) :
    0 < e.massThrough mass segments := by
  induction segments generalizing mass with
  | nil => exact pos
  | cons s rest ih =>
    have next := massAfter_pos (e := e) pos (forward s List.mem_cons_self)
    exact ih next fun s hs => forward s (List.mem_cons_of_mem _ hs)

/-- The exponential lies above its tangent, so no impulse uses more than the flow does. -/
theorem sub_flow_le_massAfter (pos : 0 < mass) {s : ThrottleSegment ℝ} (forward : 0 ≤ s.duration) :
    mass - e.flow s ≤ e.massAfter mass (e.impulse mass s) := by
  rw [massAfter_impulse pos forward]
  calc
    mass - e.flow s = mass * (-(e.flow s / mass) + 1) := by field_simp; ring
    _ ≤ mass * Real.exp (-(e.flow s / mass)) :=
      mul_le_mul_of_nonneg_left (Real.add_one_le_exp _) pos.le

theorem sub_sum_flow_le_massThrough (pos : 0 < mass) (forward : ∀ s ∈ segments, 0 ≤ s.duration) :
    mass - (segments.map e.flow).sum ≤ e.massThrough mass segments := by
  induction segments generalizing mass with
  | nil => simp [massThrough]
  | cons s rest ih =>
    have first := forward s List.mem_cons_self
    have next := massAfter_pos (e := e) pos first
    calc
      mass - ((s :: rest).map e.flow).sum = mass - e.flow s - (rest.map e.flow).sum := by
        rw [List.map_cons, List.sum_cons, sub_sub]
      _ ≤ e.massAfter mass (e.impulse mass s) - (rest.map e.flow).sum :=
        sub_le_sub_right (sub_flow_le_massAfter pos first) _
      _ ≤ e.massThrough mass (s :: rest) :=
        ih next fun s hs => forward s (List.mem_cons_of_mem _ hs)

theorem massAfter_le (pos : 0 < mass) {s : ThrottleSegment ℝ} (forward : 0 ≤ s.duration)
    (uses : 0 ≤ e.flow s) : e.massAfter mass (e.impulse mass s) ≤ mass := by
  rw [massAfter_impulse pos forward]
  exact mul_le_of_le_one_right pos.le
    (Real.exp_le_one_iff.mpr (neg_nonpos.mpr (div_nonneg uses pos.le)))

theorem massAfter_eq_iff (pos : 0 < mass) {s : ThrottleSegment ℝ} (forward : 0 ≤ s.duration) :
    e.massAfter mass (e.impulse mass s) = mass ↔ e.flow s = 0 := by
  rw [massAfter_impulse pos forward, mul_eq_left₀ pos.ne', Real.exp_eq_one_iff, neg_eq_zero,
    div_eq_zero_iff, or_iff_left pos.ne']

theorem massThrough_le (pos : 0 < mass) (forward : ∀ s ∈ segments, 0 ≤ s.duration)
    (uses : ∀ s ∈ segments, 0 ≤ e.flow s) : e.massThrough mass segments ≤ mass := by
  induction segments generalizing mass with
  | nil => exact le_rfl
  | cons s rest ih =>
    rw [List.forall_mem_cons] at forward uses
    have next := massAfter_pos (e := e) pos forward.1
    exact (ih next forward.2 uses.2).trans (massAfter_le pos forward.1 uses.1)

/-- Masses never grow on the way, so one that is still the same has been the same all along. -/
theorem massThrough_eq_iff (pos : 0 < mass) (forward : ∀ s ∈ segments, 0 ≤ s.duration)
    (uses : ∀ s ∈ segments, 0 ≤ e.flow s) :
    e.massThrough mass segments = mass ↔ ∀ s ∈ segments, e.flow s = 0 := by
  induction segments generalizing mass with
  | nil => simp [massThrough]
  | cons s rest ih =>
    rw [List.forall_mem_cons] at forward uses ⊢
    have next := massAfter_pos (e := e) pos forward.1
    have first := massAfter_le pos forward.1 uses.1
    have later := massThrough_le next forward.2 uses.2
    rw [← massAfter_eq_iff pos forward.1]
    change e.massThrough (e.massAfter mass (e.impulse mass s)) rest = mass ↔ _
    constructor
    · intro same
      have kept : e.massAfter mass (e.impulse mass s) = mass := first.antisymm (same.ge.trans later)
      rw [kept] at same
      exact ⟨kept, (ih pos forward.2 uses.2).mp same⟩
    · rintro ⟨kept, none⟩
      rw [kept]
      exact (ih pos forward.2 uses.2).mpr none

theorem le_massThrough (pos : 0 < mass) (forward : ∀ s ∈ segments, 0 ≤ s.duration)
    (gathers : ∀ s ∈ segments, e.flow s ≤ 0) : mass ≤ e.massThrough mass segments := by
  induction segments generalizing mass with
  | nil => exact le_rfl
  | cons s rest ih =>
    rw [List.forall_mem_cons] at forward gathers
    have first := (le_sub_self_iff mass).mpr gathers.1 |>.trans (sub_flow_le_massAfter pos forward.1)
    exact first.trans (ih (pos.trans_le first) forward.2 gathers.2)

end Engine

/-- Between two points of a flight lie the segments that take the one mass to the other. -/
theorem Flight.mass_between {coast : Coast ℝ} {e : Engine ℝ} {segments : List (ThrottleSegment ℝ)}
    {f g h : Flight ℝ} {k n : Nat} (le : k ≤ n)
    (hg : (segments.take k).foldlM (impulsive coast e) f = .ok g)
    (hh : (segments.take n).foldlM (impulsive coast e) f = .ok h) :
    h.state.mass = e.massThrough g.state.mass ((segments.take n).drop k) := by
  have split : segments.take n = segments.take k ++ (segments.take n).drop k := by
    conv_lhs => rw [← List.take_append_drop k (segments.take n), List.take_take, min_eq_left le]
  rw [mass_of_foldlM_impulsive hh, mass_of_foldlM_impulsive hg, ← Engine.massThrough_append,
    ← split]

namespace Transfer

section Prefixes

variable {α : Type} [Scalar α] (t : Transfer α) (coast : Coast α)

/-- The forward half of the leg as far as the impulses of its first `n` segments. -/
def forwardThrough (n : Nat) : Except (Fault α) (Flight α) :=
  (t.forwardSegments.take n).foldlM (Flight.impulsive coast (.ofSpacecraft t.spacecraft)) t.departure

/-- The backward half of the leg as far as the impulses of its last `n` segments. -/
def backwardThrough (n : Nat) : Except (Fault α) (Flight α) :=
  (t.backwardSegments.take n).foldlM
    (Flight.impulsive coast (Engine.ofSpacecraft t.spacecraft).reversed) t.arrival

end Prefixes

variable {t : Transfer ℝ} {coast : Coast ℝ}

theorem mass_of_forwardThrough {n : Nat} {f : Flight ℝ} (h : t.forwardThrough coast n = .ok f) :
    f.state.mass = (Engine.ofSpacecraft t.spacecraft).massThrough t.startState.mass
      (t.forwardSegments.take n) :=
  Flight.mass_of_foldlM_impulsive h

theorem mass_of_backwardThrough {n : Nat} {f : Flight ℝ} (h : t.backwardThrough coast n = .ok f) :
    f.state.mass = (Engine.ofSpacecraft t.spacecraft).reversed.massThrough t.finalState.mass
      (t.backwardSegments.take n) :=
  Flight.mass_of_foldlM_impulsive h

/-- A leg with an engine, masses and durations as they are in flight. -/
structure Propelled (t : Transfer ℝ) : Prop where
  thrust : 0 ≤ t.spacecraft.thrust
  isp : 0 < t.spacecraft.isp
  start : 0 < t.startState.mass
  final : 0 < t.finalState.mass
  duration : ∀ s ∈ t.throttles, 0 ≤ s.duration

namespace Propelled

variable (h : t.Propelled)

include h

theorem forward : ∀ s ∈ t.forwardSegments, 0 ≤ s.duration :=
  fun s hs => h.duration s (List.mem_of_mem_take hs)

theorem backward : ∀ s ∈ t.backwardSegments, 0 ≤ s.duration :=
  fun s hs => h.duration s (List.mem_of_mem_drop (List.mem_reverse.mp hs))

theorem propellant_nonneg {s : ThrottleSegment ℝ} (duration : 0 ≤ s.duration) :
    0 ≤ t.spacecraft.propellant s := by
  have norm : 0 ≤ s.norm := Real.sqrt_nonneg _
  have exhaust : 0 < t.spacecraft.isp * standardGravity := mul_pos h.isp standardGravity_pos
  exact div_nonneg (mul_nonneg (mul_nonneg h.thrust duration) norm) exhaust.le

theorem flow_eq : (Engine.ofSpacecraft t.spacecraft).flow = t.spacecraft.propellant :=
  funext (Engine.flow_ofSpacecraft h.thrust)

theorem flow_reversed_eq :
    (Engine.ofSpacecraft t.spacecraft).reversed.flow = fun s => -t.spacecraft.propellant s := by
  funext s
  rw [Engine.flow_reversed, h.flow_eq]

/-- Masses on the way forward, of which none is greater than one before it. -/
theorem forwardThrough_mass_le {k n : Nat} (le : k ≤ n) {f g : Flight ℝ}
    (hf : t.forwardThrough coast k = .ok f) (hg : t.forwardThrough coast n = .ok g) :
    0 < g.state.mass ∧ g.state.mass ≤ f.state.mass := by
  have forward (m : Nat) : ∀ s ∈ t.forwardSegments.take m, 0 ≤ s.duration :=
    fun s hs => h.forward s (List.mem_of_mem_take hs)
  have pos {m : Nat} {f : Flight ℝ} (hf : t.forwardThrough coast m = .ok f) : 0 < f.state.mass := by
    rw [mass_of_forwardThrough hf]
    exact Engine.massThrough_pos h.start (forward m)
  refine ⟨pos hg, ?_⟩
  have between : ∀ s ∈ (t.forwardSegments.take n).drop k, 0 ≤ s.duration :=
    fun s hs => forward n s (List.mem_of_mem_drop hs)
  rw [Flight.mass_between le hf hg]
  refine Engine.massThrough_le (pos hf) between fun s hs => ?_
  rw [h.flow_eq]
  exact h.propellant_nonneg (between s hs)

/-- Masses on the way back, of which none is less than one before it. -/
theorem le_backwardThrough_mass {k n : Nat} (le : k ≤ n) {f g : Flight ℝ}
    (hf : t.backwardThrough coast k = .ok f) (hg : t.backwardThrough coast n = .ok g) :
    0 < f.state.mass ∧ f.state.mass ≤ g.state.mass := by
  have backward (m : Nat) : ∀ s ∈ t.backwardSegments.take m, 0 ≤ s.duration :=
    fun s hs => h.backward s (List.mem_of_mem_take hs)
  have pos : 0 < f.state.mass := by
    rw [mass_of_backwardThrough hf]
    exact Engine.massThrough_pos h.final (backward k)
  refine ⟨pos, ?_⟩
  have between : ∀ s ∈ (t.backwardSegments.take n).drop k, 0 ≤ s.duration :=
    fun s hs => backward n s (List.mem_of_mem_drop hs)
  rw [Flight.mass_between le hf hg]
  refine Engine.le_massThrough pos between fun s hs => ?_
  rw [h.flow_reversed_eq]
  exact neg_nonpos.mpr (h.propellant_nonneg (between s hs))

theorem sub_propellant_le {f : Flight ℝ} (hf : t.forwardFlight coast = .ok f) :
    t.startState.mass - (t.forwardSegments.map t.spacecraft.propellant).sum ≤ f.state.mass := by
  rw [Flight.mass_of_foldlM_impulsive hf, ← h.flow_eq]
  exact Engine.sub_sum_flow_le_massThrough h.start h.forward

theorem forwardFlight_mass_eq_iff {f : Flight ℝ} (hf : t.forwardFlight coast = .ok f) :
    f.state.mass = t.startState.mass ↔
      ∀ s ∈ t.forwardSegments, t.spacecraft.propellant s = 0 := by
  rw [Flight.mass_of_foldlM_impulsive hf, ← h.flow_eq]
  refine Engine.massThrough_eq_iff h.start h.forward fun s hs => ?_
  rw [h.flow_eq]
  exact h.propellant_nonneg (h.forward s hs)

theorem add_propellant_le {g : Flight ℝ} (hg : t.backwardFlight coast = .ok g) :
    t.finalState.mass + (t.backwardSegments.map t.spacecraft.propellant).sum ≤ g.state.mass := by
  have gathered := Engine.sub_sum_flow_le_massThrough
    (e := (Engine.ofSpacecraft t.spacecraft).reversed) h.final h.backward
  rw [h.flow_reversed_eq, sum_map_neg, sub_neg_eq_add] at gathered
  rwa [Flight.mass_of_foldlM_impulsive hg]

end Propelled

/-- The mass at each point of the two halves of a leg, however it coasts, and what is missing where
they meet. -/
theorem mass_bounds {integrator : Integrator ℝ} (h : t.Propelled)
    (impulsive : t.highFidelity = false) :
    (∀ k n f g, k ≤ n → t.forwardThrough coast k = .ok f → t.forwardThrough coast n = .ok g →
      0 < g.state.mass ∧ g.state.mass ≤ f.state.mass) ∧
    (∀ f, t.forwardFlight coast = .ok f →
      t.startState.mass - (t.forwardSegments.map t.spacecraft.propellant).sum ≤ f.state.mass ∧
        (f.state.mass = t.startState.mass ↔
          ∀ s ∈ t.forwardSegments, t.spacecraft.propellant s = 0)) ∧
    (∀ k n f g, k ≤ n → t.backwardThrough coast k = .ok f → t.backwardThrough coast n = .ok g →
      0 < f.state.mass ∧ f.state.mass ≤ g.state.mass) ∧
    (∀ g, t.backwardFlight coast = .ok g →
      t.finalState.mass + (t.backwardSegments.map t.spacecraft.propellant).sum ≤ g.state.mass) ∧
    ∀ m, t.mismatchBy integrator coast = .ok m →
      m.mass ≤ t.startState.mass - t.finalState.mass -
        (t.backwardSegments.map t.spacecraft.propellant).sum := by
  refine ⟨fun _ _ _ _ le => h.forwardThrough_mass_le le,
    fun f hf => ⟨h.sub_propellant_le hf, h.forwardFlight_mass_eq_iff hf⟩,
    fun _ _ _ _ le => h.le_backwardThrough_mass le, fun g => h.add_propellant_le, fun m hm => ?_⟩
  rw [mismatchBy_of_impulsive impulsive] at hm
  obtain ⟨f, hf, hm⟩ := bind_eq_ok_iff.mp hm
  obtain ⟨g, hg, hm⟩ := bind_eq_ok_iff.mp hm
  have first : t.forwardThrough coast 0 = .ok t.departure := rfl
  have whole : t.forwardThrough coast t.forwardSegments.length = .ok f := by
    rwa [forwardThrough, List.take_length]
  have lost : f.state.mass ≤ t.startState.mass :=
    (h.forwardThrough_mass_le (Nat.zero_le _) first whole).2
  have gathered := h.add_propellant_le hg
  rw [Flight.mass_of_mismatch hm]
  linarith

end Transfer

/-! ### A circular orbit -/

namespace CircularOrbit

/-- Through two segments under thrust, one of which runs sideways, and a coast. -/
noncomputable def thrustingTransfer (highFidelity : Bool) : Transfer ℝ :=
  { transfer highFidelity with
    throttles := [⟨⟨0⟩, ⟨1⟩, ⟨0, 1, 0⟩⟩, coastingSegment 0 1, ⟨⟨0⟩, ⟨1⟩, ⟨1, 0, 1⟩⟩] }

theorem propelled_thrustingTransfer (highFidelity : Bool) :
    (thrustingTransfer highFidelity).Propelled where
  thrust := by norm_num [thrustingTransfer, transfer]
  isp := by norm_num [thrustingTransfer, transfer]
  start := by norm_num [thrustingTransfer, transfer, state]
  final := by norm_num [thrustingTransfer, transfer, state]
  duration := by
    intro s hs
    simp only [thrustingTransfer, List.mem_cons, List.not_mem_nil, or_false] at hs
    obtain rfl | rfl | rfl := hs <;>
      norm_num [coastingSegment, ThrottleSegment.duration, Epoch.secondsSince, secondsPerDay_pos.le]

theorem mass_bounds_thrustingTransfer :
    ∃ f g m, (thrustingTransfer false).forwardFlight (.ofFlow flow) = .ok f ∧
      (thrustingTransfer false).backwardFlight (.ofFlow flow) = .ok g ∧
      (thrustingTransfer false).mismatchBy integrator (.ofFlow flow) = .ok m ∧
      1000 - ((thrustingTransfer false).forwardSegments.map
        (thrustingTransfer false).spacecraft.propellant).sum ≤ f.state.mass ∧
      1000 + ((thrustingTransfer false).backwardSegments.map
        (thrustingTransfer false).spacecraft.propellant).sum ≤ g.state.mass ∧
      m.mass ≤ 1000 - 1000 - ((thrustingTransfer false).backwardSegments.map
        (thrustingTransfer false).spacecraft.propellant).sum := by
  obtain ⟨f, hf⟩ : ∃ f, (thrustingTransfer false).forwardFlight (.ofFlow flow) = .ok f := ⟨_, rfl⟩
  obtain ⟨g, hg⟩ : ∃ g, (thrustingTransfer false).backwardFlight (.ofFlow flow) = .ok g := ⟨_, rfl⟩
  obtain ⟨m, hm⟩ : ∃ m, (thrustingTransfer false).mismatchBy integrator (.ofFlow flow) = .ok m :=
    ⟨_, rfl⟩
  obtain ⟨-, forward, -, backward, missing⟩ :=
    @Transfer.mass_bounds _ (.ofFlow flow) integrator (propelled_thrustingTransfer false) rfl
  exact ⟨f, g, m, hf, hg, hm, (forward f hf).1, backward g hg, missing m hm⟩

end CircularOrbit

end LowThrust
