import Mathlib
import LowThrust.Proofs.Exact.Real
import LowThrust.Proofs.Kepler.Iteration

/-!
Motion backward in time. A motion with its velocity negated runs through the same positions in the
other order, and the solver mirrors it correction by correction: the anomaly and every correction of
it change sign, while the radius, the arguments of the Stumpff functions and both tests for the end
stay as they are.
-/

namespace LowThrust

section Definitions

variable {α : Type} [Scalar α]

instance : Neg (Vec3 α) := ⟨Vec3.map (-·)⟩

/-- The motion backward in time. -/
def Motion.mirrored (m : Motion α) : Motion α := ⟨m.position, -m.velocity⟩

namespace Kepler

def Orbit.mirrored (o : Orbit α) : Orbit α := ⟨o.start.mirrored, o.mu⟩

/-- The same end of an iteration at the negated anomaly. -/
def Outcome.mirrored : Outcome α → Outcome α
  | solved χ => solved (-χ)
  | diverged => diverged
  | exhausted lastStep => exhausted (lastStep.map (-·))

end Kepler

/-- A coast that is given up is reported with its time and its last correction. -/
def PropagationFault.mirrored : PropagationFault α → PropagationFault α
  | keplerNotConverged iterations dt alpha lastStep =>
    keplerNotConverged iterations (-dt) alpha (lastStep.map (-·))
  | stepTooSmall start final => stepTooSmall (-start) (-final)

def Fault.mirrored : Fault α → Fault α
  | propagation cause => propagation cause.mirrored
  | fault => fault

end Definitions

/-! ### Vectors and signs -/

namespace Vec3

variable (a : ℝ) (u v : Vec3 ℝ)

theorem neg_real : -v = ⟨-v.x, -v.y, -v.z⟩ := rfl

theorem neg_neg_real : - -v = v := by
  simp [neg_real]

@[simp] theorem dot_neg_real : u.dot (-v) = -u.dot v := by
  simp only [dot_real, neg_real]
  ring

@[simp] theorem neg_dot_neg_real : (-u).dot (-v) = u.dot v := by
  simp only [dot_real, neg_real]
  ring

@[simp] theorem norm_neg_real : (-v).norm = v.norm := by
  rw [norm_real, neg_dot_neg_real, norm_real]

theorem neg_smul_real : -a * v = -(a * v) := by
  apply ext <;> exact neg_mul _ _

theorem smul_neg_real : a * (-v) = -(a * v) := by
  apply ext <;> exact mul_neg _ _

theorem neg_mul_real : -v * a = -(v * a) := by
  apply ext <;> exact neg_mul _ _

theorem neg_add_neg_real : -u + -v = -(u + v) := by
  apply ext <;> exact (neg_add _ _).symm

end Vec3

theorem Motion.mirrored_injective : Function.Injective (mirrored : Motion ℝ → Motion ℝ) := by
  refine Function.Involutive.injective fun m => ?_
  simp only [mirrored, Vec3.neg_neg_real]

theorem Motion.mirrored_nan : (Motion.nan : Motion ℝ).mirrored = .nan :=
  congrArg (Motion.mk Vec3.nan) (Vec3.ext neg_zero neg_zero neg_zero)

theorem Scalar.sign_neg (x : ℝ) : Scalar.sign (-x) = -Scalar.sign x := by
  simp only [Scalar.sign, Exact.literal_zero, Exact.literal_one, Exact.beq_iff]
  rcases lt_trichotomy x 0 with neg | rfl | pos
  · simp [neg, neg.not_gt]
  · simp
  · simp [pos, pos.not_gt]

namespace Kepler

/-! ### Corrections -/

theorem initialGuess_neg (radius radial alpha dt mu : ℝ) :
    initialGuess radius (-radial) alpha (-dt) mu = -initialGuess radius radial alpha dt mu := by
  -- The logarithm is taken of a quotient of which both terms change sign.
  have argument (a b c : ℝ) : a * -dt / (-radial + -Scalar.sign dt * b * c) =
      a * dt / (radial + Scalar.sign dt * b * c) := by
    rw [← neg_div_neg_eq]
    congr 1 <;> ring
  have short : Scalar.sqrt mu * -dt / radius = -(Scalar.sqrt mu * dt / radius) := by ring
  simp only [initialGuess, Scalar.sign_neg, argument, short]
  split
  · ring
  · split
    · split
      · ring
      · rfl
    · rfl

theorem laguerreStep_neg (residual slope curvature : ℝ) :
    laguerreStep (-residual) slope (-curvature) = -laguerreStep residual slope curvature := by
  simp only [laguerreStep, mul_neg, neg_mul, neg_neg, neg_div]

theorem settled_neg (tol : ℝ) (previous : Option ℝ) (step χ : ℝ) :
    settled tol (previous.map (-·)) (-step) (-χ) = settled tol previous step χ := by
  have even (x : ℝ) : Scalar.abs (-x) = Scalar.abs x := abs_neg x
  cases previous <;> simp only [settled, Option.map_none, Option.map_some, Option.any_none,
    Option.any_some, even]

namespace Orbit

variable (o : Orbit ℝ) (dt χ : ℝ) (s : Stumpff ℝ)

@[simp] theorem mu_mirrored : o.mirrored.mu = o.mu := rfl

@[simp] theorem radius_mirrored : o.mirrored.radius = o.radius := rfl

@[simp] theorem radial_mirrored : o.mirrored.radial = -o.radial := Vec3.dot_neg_real _ _

@[simp] theorem alpha_mirrored : o.mirrored.alpha = o.alpha := by
  have speed : o.mirrored.start.velocity.dot o.mirrored.start.velocity =
      o.start.velocity.dot o.start.velocity := Vec3.neg_dot_neg_real _ _
  rw [alpha, radius_mirrored, speed, mu_mirrored, alpha]

@[simp] theorem sigma_mirrored : o.mirrored.sigma = -o.sigma := by
  rw [sigma, radial_mirrored, mu_mirrored, neg_div, sigma]

@[simp] theorem psi_mirrored : o.mirrored.psi (-χ) = o.psi χ := by
  rw [psi, alpha_mirrored, neg_mul_neg, psi]

theorem residual_mirrored : o.mirrored.residual (-dt) (-χ) s = -o.residual dt χ s := by
  simp only [residual, psi_mirrored, sigma_mirrored, radius_mirrored, mu_mirrored,
    Exact.literal_one]
  ring

theorem slope_mirrored : o.mirrored.slope (-χ) s = o.slope χ s := by
  simp only [slope, psi_mirrored, sigma_mirrored, radius_mirrored, Exact.literal_one]
  ring

theorem curvature_mirrored : o.mirrored.curvature (-χ) s = -o.curvature χ s := by
  simp only [curvature, psi_mirrored, sigma_mirrored, radius_mirrored, alpha_mirrored,
    Exact.literal_one]
  ring

theorem step_mirrored : o.mirrored.step (-dt) (-χ) s = -o.step dt χ s := by
  rw [step, residual_mirrored, slope_mirrored, curvature_mirrored, laguerreStep_neg, step]

theorem advance_mirrored : o.mirrored.advance (-dt) (-χ) s = (o.advance dt χ s).mirrored := by
  have back : o.mirrored.start = ⟨o.start.position, -o.start.velocity⟩ := rfl
  have square : -χ * -χ = χ * χ := neg_mul_neg χ χ
  have lagrangeG : -dt - χ * χ * -χ / Scalar.sqrt o.mu * s.c3 =
      -(dt - χ * χ * χ / Scalar.sqrt o.mu * s.c3) := by ring
  have position (f g : ℝ) : f * o.start.position + -g * -o.start.velocity =
      f * o.start.position + g * o.start.velocity := by
    rw [Vec3.neg_smul_real, Vec3.smul_neg_real, Vec3.neg_neg_real]
  have velocity (c d g : ℝ) : c * -χ * d * o.start.position + g * -o.start.velocity =
      -(c * χ * d * o.start.position + g * o.start.velocity) := by
    rw [show c * -χ * d = -(c * χ * d) by ring, Vec3.neg_smul_real, Vec3.smul_neg_real,
      Vec3.neg_add_neg_real]
  simp only [advance, back, square, lagrangeG, position, velocity, psi_mirrored, radius_mirrored,
    mu_mirrored, Motion.mirrored]

end Orbit

/-! ### Coasting -/

/-- Every correction is the negated one, until the same one ends the iteration. -/
theorem iterate_mirrored (stumpff : ℝ → Stumpff ℝ) (tol : ℝ) (o : Orbit ℝ) (dt : ℝ) (n : Nat)
    (previous : Option ℝ) (χ : ℝ) :
    iterate stumpff tol o.mirrored (-dt) n (previous.map (-·)) (-χ) =
      (iterate stumpff tol o dt n previous χ).mirrored := by
  induction n generalizing previous χ with
  | zero => rfl
  | succ n ih =>
    have next (step : ℝ) : -χ - -step = -(χ - step) := by ring
    have goes := ih (some (o.step dt χ (stumpff (o.psi χ)))) (χ - o.step dt χ (stumpff (o.psi χ)))
    have finite (x : ℝ) : Scalar.isFinite x = true := rfl
    simp only [iterate, Orbit.psi_mirrored, Orbit.step_mirrored, next, settled_neg, finite, if_true]
    split
    · rfl
    · exact goes

/-- The same correction ends the iteration, so there are as many of them. -/
theorem corrections_mirrored (stumpff : ℝ → Stumpff ℝ) (tol : ℝ) (o : Orbit ℝ) (dt : ℝ) (n : Nat)
    (previous : Option ℝ) (χ : ℝ) :
    corrections stumpff tol o.mirrored (-dt) n (previous.map (-·)) (-χ) =
      corrections stumpff tol o dt n previous χ := by
  induction n generalizing previous χ with
  | zero => rfl
  | succ n ih =>
    have next (step : ℝ) : -χ - -step = -(χ - step) := by ring
    have goes := ih (some (o.step dt χ (stumpff (o.psi χ)))) (χ - o.step dt χ (stumpff (o.psi χ)))
    have finite (x : ℝ) : Scalar.isFinite x = true := rfl
    simp only [corrections, Orbit.psi_mirrored, Orbit.step_mirrored, next, settled_neg, finite,
      if_true]
    split
    · rfl
    · exact congrArg (· + 1) goes

namespace Orbit

variable (stumpff : ℝ → Stumpff ℝ) (config : KeplerConfig ℝ) (o : Orbit ℝ) (dt : ℝ)

theorem still_neg : (-dt == (0.0 : ℝ)) = (dt == 0.0) := by
  rw [Bool.eq_iff_iff, Exact.beq_iff, Exact.beq_iff, Exact.literal_zero, neg_eq_zero]

theorem solve_mirrored :
    o.mirrored.solve stumpff config (-dt) = (o.solve stumpff config dt).mirrored := by
  rw [solve, radius_mirrored, radial_mirrored, alpha_mirrored, mu_mirrored, initialGuess_neg]
  exact iterate_mirrored stumpff config.tol o dt _ none _

theorem coast_mirrored :
    o.mirrored.coast stumpff config (-dt) =
      ((o.coast stumpff config dt).map Motion.mirrored).mapError Fault.mirrored := by
  have regular (dt : ℝ) (o : Orbit ℝ) : o.isRegular dt = true := rfl
  simp only [coast, mu_mirrored, still_neg, regular, solve_mirrored, alpha_mirrored, if_true]
  split
  · split
    · rfl
    · cases o.solve stumpff config dt with
      | solved χ =>
        simp only [Outcome.mirrored, psi_mirrored, advance_mirrored]
        rfl
      | diverged => exact congrArg Except.ok Motion.mirrored_nan.symm
      | exhausted => rfl
  · rfl

theorem corrections_mirrored :
    o.mirrored.corrections stumpff config (-dt) = o.corrections stumpff config dt := by
  have regular (dt : ℝ) (o : Orbit ℝ) : o.isRegular dt = true := rfl
  rw [corrections, corrections, mu_mirrored, still_neg, regular, regular, radius_mirrored,
    radial_mirrored, alpha_mirrored, initialGuess_neg]
  have same := Kepler.corrections_mirrored stumpff config.tol o dt config.maxIterations.toNat none
    (initialGuess o.radius o.radial o.alpha dt o.mu)
  rw [Option.map_none] at same
  rw [same]

end Orbit

/-- Forward and backward in time the same coast is found or given up. -/
theorem propagate_mirrored (config : KeplerConfig ℝ) (mu : ℝ) (start : Motion ℝ) (dt : ℝ) :
    propagate config mu start.mirrored (-dt) =
      ((propagate config mu start dt).map Motion.mirrored).mapError Fault.mirrored :=
  Orbit.coast_mirrored stumpff config ⟨start, mu⟩ dt

/-- The solver is symmetric in time. From the negated velocity, the negated time leads to the same
position with the negated velocity, or both coasts are given up, and after as many corrections,
under any tolerance and limit. -/
theorem propagate_reversed (config : KeplerConfig ℝ) (mu : ℝ) (r₀ v₀ : Vec3 ℝ) (dt : ℝ) :
    let forward := propagate config mu ⟨r₀, v₀⟩ dt
    let backward := propagate config mu ⟨r₀, -v₀⟩ (-dt)
    (∀ r v, backward = .ok ⟨r, -v⟩ ↔ forward = .ok ⟨r, v⟩) ∧
      ((∃ cause, backward = .error (.propagation cause)) ↔
        ∃ cause, forward = .error (.propagation cause)) ∧
      Orbit.corrections stumpff config ⟨⟨r₀, -v₀⟩, mu⟩ (-dt) =
        Orbit.corrections stumpff config ⟨⟨r₀, v₀⟩, mu⟩ dt := by
  intro forward backward
  have image : backward = (forward.map Motion.mirrored).mapError Fault.mirrored :=
    propagate_mirrored config mu ⟨r₀, v₀⟩ dt
  rw [image]
  refine ⟨fun r v => ?_, ?_, Orbit.corrections_mirrored stumpff config ⟨⟨r₀, v₀⟩, mu⟩ dt⟩
  · change _ = Except.ok (Motion.mirrored ⟨r, v⟩) ↔ _
    cases forward with
    | error => simp [Except.map, Except.mapError]
    | ok m => simp [Except.map, Except.mapError, Motion.mirrored_injective.eq_iff]
  · cases forward with
    | ok => simp [Except.map, Except.mapError]
    | error fault => cases fault <;> simp [Except.map, Except.mapError, Fault.mirrored]

end Kepler

end LowThrust
