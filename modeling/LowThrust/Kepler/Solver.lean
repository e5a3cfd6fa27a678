import LowThrust.Config
import LowThrust.Kepler.Orbit

/-!
Coasting for a signed time. The universal Kepler equation is solved by the iteration of Laguerre
and Conway, which converges from poor starting points for conics of every type.
-/

namespace LowThrust.Kepler

open Scalar

variable {α : Type} [Scalar α]

/-- The anomaly the iteration starts from: exact on a circle, by the logarithm on a hyperbola where
its argument exceeds one, and by the initial rate otherwise. -/
def initialGuess (radius radial alpha dt mu : α) : α :=
  let short := sqrt mu * dt / radius
  if alpha > 0.0 then sqrt mu * dt * alpha
  else if alpha < 0.0 then
    let a := 1.0 / alpha
    let argument := -2.0 * mu * alpha * dt /
      (radial + sign dt * sqrt (-mu * a) * (1.0 - radius * alpha))
    if argument > 1.0 then sign dt * sqrt (-a) * log argument else short
  else short

/-- The correction of the anomaly by Laguerre's method of order five. -/
def laguerreStep (residual slope curvature : α) : α :=
  let discriminant := sqrt (Scalar.abs (16.0 * slope * slope - 20.0 * residual * curvature))
  5.0 * residual / (slope + discriminant)

namespace Orbit

/-- The correction at anomaly `χ`. -/
def step (o : Orbit α) (dt χ : α) (s : Stumpff α) : α :=
  laguerreStep (o.residual dt χ s) (o.slope χ s) (o.curvature χ s)

end Orbit

/-- Whether the step just taken to `χ` is the last: it is small, or it has stopped shrinking while
nearly small, where the residual is rounding noise. -/
def settled (tol : α) (previous : Option α) (step χ : α) : Bool :=
  let scale := atLeast 1.0 (Scalar.abs χ)
  decide (Scalar.abs step ≤ tol * scale) ||
    (previous.any fun p => decide (Scalar.abs step ≥ Scalar.abs p)) &&
      decide (Scalar.abs step ≤ sqrt tol * scale)

/-- How an iteration ends. -/
inductive Outcome (α : Type) where
  | solved (χ : α)
  /-- The anomaly is no longer finite. -/
  | diverged
  /-- No iteration is left; the last step, if one was taken. -/
  | exhausted (lastStep : Option α)

/-- At most so many corrections of `χ`. -/
def iterate (stumpff : α → Stumpff α) (tol : α) (o : Orbit α) (dt : α) :
    Nat → Option α → α → Outcome α
  | 0, previous, _ => .exhausted previous
  | n + 1, previous, χ =>
    let step := o.step dt χ (stumpff (o.psi χ))
    let χ := χ - step
    if isFinite χ then
      if settled tol previous step χ then .solved χ
      else iterate stumpff tol o dt n (some step) χ
    else .diverged

namespace Orbit

/-- Energy, radial motion and time of flight are all finite. -/
def isRegular (o : Orbit α) (dt : α) : Bool := isFinite o.alpha && isFinite o.radial && isFinite dt

def solve (stumpff : α → Stumpff α) (config : KeplerConfig α) (o : Orbit α) (dt : α) : Outcome α :=
  iterate stumpff config.tol o dt config.maxIterations.toNat none
    (initialGuess o.radius o.radial o.alpha dt o.mu)

/-- The motion after `dt` seconds. What is not finite leads to a motion that is not. -/
def coast (stumpff : α → Stumpff α) (config : KeplerConfig α) (o : Orbit α) (dt : α) :
    Except (Fault α) (Motion α) :=
  if o.mu > 0.0 then
    if dt == 0.0 then .ok o.start
    else if o.isRegular dt then
      match o.solve stumpff config dt with
      | .solved χ => .ok (o.advance dt χ (stumpff (o.psi χ)))
      | .diverged => .ok .nan
      | .exhausted lastStep =>
        .error (.propagation (.keplerNotConverged config.maxIterations dt o.alpha lastStep))
    else .ok .nan
  else .error (.configuration (.gravityNotPositive o.mu))

end Orbit

/-- The motion after a coast of `dt` seconds about a centre of gravitational parameter `mu`. -/
def propagate (config : KeplerConfig α) (mu : α) (start : Motion α) (dt : α) :
    Except (Fault α) (Motion α) :=
  Orbit.coast stumpff config ⟨start, mu⟩ dt

end LowThrust.Kepler
