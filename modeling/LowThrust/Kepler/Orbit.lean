import LowThrust.Kepler.Stumpff
import LowThrust.State

/-!
Motion about a point mass in terms of the universal anomaly `χ`. The Stumpff functions enter by
their values at `ψ = α χ²`.
-/

namespace LowThrust

/-- The motion of a computation without a result. -/
def Motion.nan {α : Type} [Scalar α] : Motion α := ⟨.nan, .nan⟩

namespace Kepler

open Scalar

/-- A motion about a centre of gravitational parameter `mu`. -/
structure Orbit (α : Type) where
  start : Motion α
  mu : α

namespace Orbit

variable {α : Type} [Scalar α] (o : Orbit α)

def radius : α := o.start.position.norm

/-- Radius times its rate. -/
def radial : α := o.start.position.dot o.start.velocity

/-- The reciprocal of the semi-major axis: positive on an ellipse, negative on a hyperbola. -/
def alpha : α := 2.0 / o.radius - o.start.velocity.dot o.start.velocity / o.mu

def sigma : α := o.radial / sqrt o.mu

def psi (χ : α) : α := χ * χ * o.alpha

/-- The universal Kepler equation: zero at the anomaly that is reached after `dt` seconds. -/
def residual (dt χ : α) (s : Stumpff α) : α :=
  χ * χ * χ * s.c3 + o.sigma * (χ * χ) * s.c2 + o.radius * χ * (1.0 - o.psi χ * s.c3) -
    sqrt o.mu * dt

/-- The first derivative of the residual, which is the radius reached. -/
def slope (χ : α) (s : Stumpff α) : α :=
  χ * χ * s.c2 + o.sigma * χ * (1.0 - o.psi χ * s.c3) + o.radius * (1.0 - o.psi χ * s.c2)

/-- The second derivative of the residual. -/
def curvature (χ : α) (s : Stumpff α) : α :=
  o.sigma * (1.0 - o.psi χ * s.c2) +
    (1.0 - o.alpha * o.radius) * χ * (1.0 - o.psi χ * s.c3)

/-- Lagrange's coefficients and the motion they give at anomaly `χ`. -/
def advance (dt χ : α) (s : Stumpff α) : Motion α :=
  let r₀ := o.start.position
  let v₀ := o.start.velocity
  let f := 1.0 - χ * χ / o.radius * s.c2
  let g := dt - χ * χ * χ / sqrt o.mu * s.c3
  let r := f * r₀ + g * v₀
  let gDot := 1.0 - χ * χ / r.norm * s.c2
  let fDot := sqrt o.mu / (r.norm * o.radius) * χ * (o.psi χ * s.c3 - 1.0)
  ⟨r, fDot * r₀ + gDot * v₀⟩

/-- Energy per unit mass, in km²/s². It has no value at the centre. -/
def energy : Except (Fault α) α :=
  if o.radius == 0.0 then .error .divisionByZero
  else .ok (0.5 * o.start.velocity.dot o.start.velocity - o.mu / o.radius)

end Orbit

end Kepler

end LowThrust
