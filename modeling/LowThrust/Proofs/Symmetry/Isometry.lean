import LowThrust.Kepler.Solver

/-!
Maps of space that keep products of vectors. Coasting does not tell one frame from another: every
scalar of an orbit is a product, so the iteration takes the same steps, and its motion is carried
along.
-/

namespace LowThrust

/-- A linear map of vectors that keeps their products. What has no result is left as it is. -/
structure Isometry (α : Type) [Scalar α] where
  toFun : Vec3 α → Vec3 α
  map_add : ∀ u v, toFun (u + v) = toFun u + toFun v
  map_sub : ∀ u v, toFun (u - v) = toFun u - toFun v
  map_smul : ∀ (a : α) v, toFun (a * v) = a * toFun v
  map_mul : ∀ v (a : α), toFun (v * a) = toFun v * a
  map_nan : toFun .nan = .nan
  dot_map : ∀ u v, (toFun u).dot (toFun v) = u.dot v

namespace Isometry

variable {α : Type} [Scalar α]

instance : CoeFun (Isometry α) fun _ => Vec3 α → Vec3 α := ⟨toFun⟩

variable (Q : Isometry α)

@[simp] theorem norm_map (v : Vec3 α) : (Q v).norm = v.norm := by
  rw [Vec3.norm, Q.dot_map, Vec3.norm]

def motion (m : Motion α) : Motion α := ⟨Q m.position, Q m.velocity⟩

theorem motion_nan : Q.motion .nan = .nan := by
  rw [motion, Motion.nan, Q.map_nan]

end Isometry

/-! ### Coasting -/

namespace Kepler

variable {α : Type} [Scalar α]

/-- The orbit of the carried motion. -/
def Orbit.under (Q : Isometry α) (o : Orbit α) : Orbit α := ⟨Q.motion o.start, o.mu⟩

namespace Orbit

variable (Q : Isometry α) (o : Orbit α)

@[simp] theorem mu_under : (o.under Q).mu = o.mu := rfl

@[simp] theorem radius_under : (o.under Q).radius = o.radius := Q.norm_map _

@[simp] theorem radial_under : (o.under Q).radial = o.radial := Q.dot_map _ _

@[simp] theorem alpha_under : (o.under Q).alpha = o.alpha := by
  have speed : (o.under Q).start.velocity.dot (o.under Q).start.velocity =
      o.start.velocity.dot o.start.velocity := Q.dot_map _ _
  rw [alpha, radius_under, speed, mu_under, alpha]

@[simp] theorem sigma_under : (o.under Q).sigma = o.sigma := by
  rw [sigma, radial_under, mu_under, sigma]

@[simp] theorem psi_under (χ : α) : (o.under Q).psi χ = o.psi χ := by
  rw [psi, alpha_under, psi]

theorem step_under (dt χ : α) (s : Stumpff α) : (o.under Q).step dt χ s = o.step dt χ s := by
  simp only [step, residual, slope, curvature, sigma_under, radius_under, psi_under, alpha_under,
    mu_under]

theorem advance_under (dt χ : α) (s : Stumpff α) :
    (o.under Q).advance dt χ s = Q.motion (o.advance dt χ s) := by
  have combination (a b : α) : a * (o.under Q).start.position + b * (o.under Q).start.velocity =
      Q (a * o.start.position + b * o.start.velocity) := by
    rw [Q.map_add, Q.map_smul, Q.map_smul]
    rfl
  simp only [advance, Isometry.motion, combination, radius_under, psi_under, mu_under, Q.norm_map]

end Orbit

/-- The same corrections, until the same one ends the iteration. -/
theorem iterate_under (Q : Isometry α) (stumpff : α → Stumpff α) (tol : α) (o : Orbit α) (dt : α)
    (n : Nat) (previous : Option α) (χ : α) :
    iterate stumpff tol (o.under Q) dt n previous χ = iterate stumpff tol o dt n previous χ := by
  induction n generalizing previous χ with
  | zero => rfl
  | succ n ih => simp only [iterate, Orbit.psi_under, Orbit.step_under, ih]

namespace Orbit

variable (Q : Isometry α) (stumpff : α → Stumpff α) (config : KeplerConfig α) (o : Orbit α) (dt : α)

theorem solve_under : (o.under Q).solve stumpff config dt = o.solve stumpff config dt := by
  simp only [solve, iterate_under, radius_under, radial_under, alpha_under, mu_under]

theorem coast_under :
    (o.under Q).coast stumpff config dt = (o.coast stumpff config dt).map Q.motion := by
  have regular : (o.under Q).isRegular dt = o.isRegular dt := by
    simp only [isRegular, alpha_under, radial_under]
  simp only [coast, regular, solve_under, mu_under, alpha_under, psi_under, advance_under]
  split
  · split
    · rfl
    · split
      · cases o.solve stumpff config dt with
        | solved => rfl
        | diverged => rw [Except.map, Q.motion_nan]
        | exhausted => rfl
      · rw [Except.map, Q.motion_nan]
  · rfl

end Orbit

theorem propagate_motion (Q : Isometry α) (config : KeplerConfig α) (mu : α) (start : Motion α)
    (dt : α) :
    propagate config mu (Q.motion start) dt = (propagate config mu start dt).map Q.motion :=
  Orbit.coast_under Q stumpff config ⟨start, mu⟩ dt

end Kepler

end LowThrust
