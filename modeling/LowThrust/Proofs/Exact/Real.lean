import Mathlib
import LowThrust.Constants
import LowThrust.State

/-!
Real numbers as the arithmetic of exact reasoning: every number is finite, and a quotient by zero
is zero.
-/

namespace LowThrust

noncomputable instance : Scalar ℝ where
  decidableLT := fun _ _ => Classical.propDecidable _
  decidableLE := fun _ _ => Classical.propDecidable _
  beq x y := decide (x = y)
  isFinite _ := true
  nan := 0
  abs x := |x|
  sqrt := Real.sqrt
  exp := Real.exp
  log := Real.log
  sin := Real.sin
  cos := Real.cos
  sinh := Real.sinh
  cosh := Real.cosh
  ceil x := ⌈x⌉
  ofNat n := n

namespace Exact

@[simp] theorem beq_iff (x y : ℝ) : (x == y) = true ↔ x = y := by
  change decide (x = y) = true ↔ x = y
  rw [decide_eq_true_iff]

@[simp] theorem literal_zero : (0.0 : ℝ) = 0 := by norm_num

@[simp] theorem literal_one : (1.0 : ℝ) = 1 := by norm_num

@[simp] theorem literal_two : (2.0 : ℝ) = 2 := by norm_num

@[simp] theorem sqrt_eq (x : ℝ) : Scalar.sqrt x = Real.sqrt x := rfl

@[simp] theorem exp_eq (x : ℝ) : Scalar.exp x = Real.exp x := rfl

@[simp] theorem sin_eq (x : ℝ) : Scalar.sin x = Real.sin x := rfl

@[simp] theorem cos_eq (x : ℝ) : Scalar.cos x = Real.cos x := rfl

@[simp] theorem sinh_eq (x : ℝ) : Scalar.sinh x = Real.sinh x := rfl

@[simp] theorem cosh_eq (x : ℝ) : Scalar.cosh x = Real.cosh x := rfl

@[simp] theorem cube_eq (x : ℝ) : Scalar.cube x = x ^ 3 := by
  change x * x * x = x ^ 3
  ring

end Exact

theorem kmPerMetre_pos : 0 < (kmPerMetre : ℝ) := by
  norm_num [kmPerMetre]

theorem standardGravity_pos : 0 < (standardGravity : ℝ) := by
  norm_num [standardGravity]

theorem secondsPerDay_pos : 0 < (secondsPerDay : ℝ) := by
  norm_num [secondsPerDay]

namespace Vec3

@[ext] theorem ext {α : Type} {u v : Vec3 α} (hx : u.x = v.x) (hy : u.y = v.y) (hz : u.z = v.z) :
    u = v := by
  cases u
  cases v
  simp_all

theorem add_real (u v : Vec3 ℝ) : u + v = ⟨u.x + v.x, u.y + v.y, u.z + v.z⟩ := rfl

theorem smul_real (a : ℝ) (v : Vec3 ℝ) : a * v = ⟨a * v.x, a * v.y, a * v.z⟩ := rfl

theorem mul_real (v : Vec3 ℝ) (a : ℝ) : v * a = ⟨v.x * a, v.y * a, v.z * a⟩ := rfl

theorem div_real (v : Vec3 ℝ) (a : ℝ) : v / a = ⟨v.x / a, v.y / a, v.z / a⟩ := rfl

theorem dot_real (u v : Vec3 ℝ) : u.dot v = u.x * v.x + u.y * v.y + u.z * v.z := rfl

theorem dot_combination (a b c d : ℝ) (u v : Vec3 ℝ) :
    (a * u + b * v).dot (c * u + d * v) =
      a * c * u.dot u + (a * d + b * c) * u.dot v + b * d * v.dot v := by
  simp only [dot_real, add_real, smul_real]
  ring

theorem norm_real (v : Vec3 ℝ) : v.norm = √(v.dot v) := rfl

theorem magnitude_toList (v : Vec3 ℝ) : magnitude v.toList = v.norm := by
  simp [magnitude, toList, norm_real, dot_real]

theorem norm_mul (v : Vec3 ℝ) {a : ℝ} (ha : 0 ≤ a) : (v * a).norm = v.norm * a := by
  have squares : (v * a).dot (v * a) = v.dot v * a ^ 2 := by
    simp only [dot_real, mul_real]
    ring
  rw [norm_real, squares, Real.sqrt_mul' _ (sq_nonneg a), Real.sqrt_sq ha, norm_real]

@[simp] theorem zero_real : (zero : Vec3 ℝ) = ⟨0, 0, 0⟩ := by
  simp [zero, replicate]

theorem add_zero_real (v : Vec3 ℝ) : v + (⟨0, 0, 0⟩ : Vec3 ℝ) = v := by
  apply ext <;> exact add_zero _

theorem mul_zero_real (a : ℝ) : a * (⟨0, 0, 0⟩ : Vec3 ℝ) = ⟨0, 0, 0⟩ := by
  apply ext <;> exact mul_zero _

theorem zero_mul_real (a : ℝ) : (⟨0, 0, 0⟩ : Vec3 ℝ) * a = ⟨0, 0, 0⟩ := by
  apply ext <;> exact zero_mul _

theorem zero_div_real (a : ℝ) : (⟨0, 0, 0⟩ : Vec3 ℝ) / a = ⟨0, 0, 0⟩ := by
  apply ext <;> exact zero_div _

theorem norm_zero_real : (⟨0, 0, 0⟩ : Vec3 ℝ).norm = 0 := by
  simp [norm, dot]

theorem sub_eq_zero_real (u v : Vec3 ℝ) : u - v = ⟨0, 0, 0⟩ ↔ u = v := by
  constructor
  · intro h
    have hx := congrArg x h
    have hy := congrArg y h
    have hz := congrArg z h
    exact ext (sub_eq_zero.mp hx) (sub_eq_zero.mp hy) (sub_eq_zero.mp hz)
  · rintro rfl
    apply ext <;> exact sub_self _

end Vec3

namespace State

theorem sub_eq_zero_real (s t : State ℝ) : s - t = ⟨⟨.zero, .zero⟩, 0⟩ ↔ s = t := by
  obtain ⟨⟨r, v⟩, m⟩ := s
  obtain ⟨⟨r', v'⟩, m'⟩ := t
  change (⟨⟨r - r', v - v'⟩, m - m'⟩ : State ℝ) = _ ↔ _
  simp only [mk.injEq, Motion.mk.injEq, Vec3.zero_real, Vec3.sub_eq_zero_real, sub_eq_zero]

end State

end LowThrust
