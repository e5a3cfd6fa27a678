import LowThrust.State

/-!
Numbers among which some are not finite. What is computed from a number that is not finite by sums,
differences and products is not finite either, so a finite result tells that its operands are.
-/

namespace LowThrust

open Scalar

/-- What is not finite takes hold of every sum, difference and product, and is beyond every finite
bound. -/
class Scalar.KeepsNonFinite (α : Type) [Scalar α] : Prop where
  isFinite_nan : isFinite (nan : α) = false
  isFinite_of_beq_zero {x : α} : (x == 0.0) = true → isFinite x = true
  isFinite_add {x y : α} : isFinite (x + y) = true → isFinite x = true ∧ isFinite y = true
  isFinite_sub {x y : α} : isFinite (x - y) = true → isFinite x = true ∧ isFinite y = true
  isFinite_mul {x y : α} : isFinite (x * y) = true → isFinite x = true ∧ isFinite y = true
  isFinite_of_abs_le {x bound : α} :
    Scalar.abs x ≤ bound → isFinite bound = true → isFinite x = true

/-- Finite numbers are equal or in an order, and each of them takes a place in the order of two
others. -/
class Scalar.OrdersFinite (α : Type) [Scalar α] : Prop where
  lt_asymm {x y : α} : x < y → ¬ y < x
  lt_or_lt {x y z : α} : isFinite y = true → x < z → x < y ∨ y < z
  lt_or_beq_or_lt {x y : α} :
    isFinite x = true → isFinite y = true → x < y ∨ (x == y) = true ∨ y < x

theorem Scalar.OrdersFinite.beq_self {α : Type} [Scalar α] [OrdersFinite α] {x : α}
    (h : isFinite x = true) : (x == x) = true := by
  rcases lt_or_beq_or_lt h h with lt | same | lt
  · exact absurd lt (lt_asymm lt)
  · exact same
  · exact absurd lt (lt_asymm lt)

/-- The rules for zeros, of which each has a sign, and for the exponential of what is not finite. -/
class Scalar.Ieee (α : Type) [Scalar α] : Prop extends KeepsNonFinite α where
  neg_beq_zero {x : α} : (x == 0.0) = true → (-x == 0.0) = true
  mul_beq_zero {x y : α} : isFinite x = true → (y == 0.0) = true → (x * y == 0.0) = true
  isFinite_zero_sub {x y : α} : (x == 0.0) = true → isFinite y = true → isFinite (x - y) = true
  isFinite_div_zero {x y : α} : (y == 0.0) = true → isFinite (x / y) = false
  /-- A root divided by a zero is an infinity, unless it is zero itself. -/
  neg_sqrt_div_zero_lt_iff {x y : α} :
    (y == 0.0) = true → (-sqrt x / y < 0.0 ↔ 0.0 < sqrt x ∧ 0.0 < 1.0 / y)
  not_zero_lt_reciprocal_neg {y : α} : (y == 0.0) = true → 0.0 < 1.0 / y → ¬ 0.0 < 1.0 / -y
  isFinite_exp_iff {x : α} : isFinite x = false → (isFinite (exp x) = true ↔ x < 0.0)
  exp_beq_zero {x : α} : isFinite x = false → x < 0.0 → (exp x == 0.0) = true

/-- Signs cancel in a quotient, those of zeros and of what is not finite too. -/
class Scalar.CancelsSigns (α : Type) [Scalar α] : Prop where
  neg_div_neg (x y : α) : -x / -y = x / y

variable {α : Type} [Scalar α]

namespace Vec3

/-- Every component is finite. -/
def isFinite (v : Vec3 α) : Bool := v.toList.all Scalar.isFinite

theorem isFinite_iff (v : Vec3 α) :
    v.isFinite = true ↔
      Scalar.isFinite v.x = true ∧ Scalar.isFinite v.y = true ∧ Scalar.isFinite v.z = true := by
  simp [isFinite, toList]

theorem isFinite_replicate (a : α) : (replicate a).isFinite = Scalar.isFinite a := by
  simp [isFinite, replicate, toList]

/-- A vector whose components are computed from those of two others. -/
theorem isFinite_operands {u v w : Vec3 α} (h : w.isFinite = true)
    (hx : Scalar.isFinite w.x = true → Scalar.isFinite u.x = true ∧ Scalar.isFinite v.x = true)
    (hy : Scalar.isFinite w.y = true → Scalar.isFinite u.y = true ∧ Scalar.isFinite v.y = true)
    (hz : Scalar.isFinite w.z = true → Scalar.isFinite u.z = true ∧ Scalar.isFinite v.z = true) :
    u.isFinite = true ∧ v.isFinite = true := by
  obtain ⟨wx, wy, wz⟩ := (isFinite_iff w).mp h
  rw [isFinite_iff, isFinite_iff]
  exact ⟨⟨(hx wx).1, (hy wy).1, (hz wz).1⟩, (hx wx).2, (hy wy).2, (hz wz).2⟩

variable [KeepsNonFinite α] {u v : Vec3 α}

theorem isFinite_nan : (nan : Vec3 α).isFinite = false := by
  rw [nan, isFinite_replicate, KeepsNonFinite.isFinite_nan]

theorem isFinite_add (h : (u + v).isFinite = true) : u.isFinite = true ∧ v.isFinite = true :=
  isFinite_operands h KeepsNonFinite.isFinite_add KeepsNonFinite.isFinite_add
    KeepsNonFinite.isFinite_add

theorem isFinite_sub (h : (u - v).isFinite = true) : u.isFinite = true ∧ v.isFinite = true :=
  isFinite_operands h KeepsNonFinite.isFinite_sub KeepsNonFinite.isFinite_sub
    KeepsNonFinite.isFinite_sub

theorem isFinite_dot (h : Scalar.isFinite (u.dot v) = true) :
    u.isFinite = true ∧ v.isFinite = true := by
  obtain ⟨hxy, hz⟩ := KeepsNonFinite.isFinite_add h
  obtain ⟨hx, hy⟩ := KeepsNonFinite.isFinite_add hxy
  have products : (⟨u.x * v.x, u.y * v.y, u.z * v.z⟩ : Vec3 α).isFinite = true :=
    (isFinite_iff _).mpr ⟨hx, hy, hz⟩
  exact isFinite_operands products KeepsNonFinite.isFinite_mul KeepsNonFinite.isFinite_mul
    KeepsNonFinite.isFinite_mul

end Vec3

/-- Every component of position and velocity is finite. -/
def Motion.isFinite (m : Motion α) : Bool := m.position.isFinite && m.velocity.isFinite

theorem Motion.isFinite_iff (m : Motion α) :
    m.isFinite = true ↔ m.position.isFinite = true ∧ m.velocity.isFinite = true := by
  simp [isFinite]

namespace State

theorem isFinite_iff (s : State α) :
    s.isFinite = true ↔ s.toMotion.isFinite = true ∧ Scalar.isFinite s.mass = true := by
  simp [isFinite, toList, Motion.isFinite, Vec3.isFinite, and_assoc]

theorem isFinite_sub [KeepsNonFinite α] {s t : State α} (h : (s - t).isFinite = true) :
    s.isFinite = true ∧ t.isFinite = true := by
  obtain ⟨motion, mass⟩ := (isFinite_iff _).mp h
  obtain ⟨position, velocity⟩ := (Motion.isFinite_iff _).mp motion
  have r := Vec3.isFinite_sub position
  have v := Vec3.isFinite_sub velocity
  have m := KeepsNonFinite.isFinite_sub mass
  constructor
  · exact (isFinite_iff s).mpr ⟨(Motion.isFinite_iff _).mpr ⟨r.1, v.1⟩, m.1⟩
  · exact (isFinite_iff t).mpr ⟨(Motion.isFinite_iff _).mpr ⟨r.2, v.2⟩, m.2⟩

end State

end LowThrust
