import LowThrust.Kepler.Solver

/-!
Coasts that are computed on arrays of components, whose number no type fixes. A motion is made of
them only once they are checked to have three components each, and what a coast makes of the arrays
of a motion always passes the check.
-/

namespace LowThrust

open Scalar

variable {α : Type}

/-- Components of a position and of a velocity, as many as there are. -/
structure ArrayMotion (α : Type) where
  position : List α
  velocity : List α

namespace ArrayMotion

def ofMotion (m : Motion α) : ArrayMotion α := ⟨m.position.toList, m.velocity.toList⟩

/-- The motion, if position and velocity have three components. -/
def toMotion (a : ArrayMotion α) : Except (Fault α) (Motion α) := do
  let position ← Tensor.toVec3 .position ⟨[a.position.length], a.position⟩
  let velocity ← Tensor.toVec3 .velocity ⟨[a.velocity.length], a.velocity⟩
  return ⟨position, velocity⟩

theorem toMotion_ofMotion (m : Motion α) : (ofMotion m).toMotion = .ok m := rfl

variable [Scalar α]

/-- A combination of position and velocity, component by component. -/
def combine (f g : α) (a : ArrayMotion α) : List α :=
  List.zipWith (fun r v => f * r + g * v) a.position a.velocity

end ArrayMotion

namespace Kepler

variable [Scalar α]

/-- The sum of the products of components, from the first one on. -/
def innerProduct (u v : List α) : α :=
  match List.zipWith (· * ·) u v with
  | [] => 0.0
  | p :: ps => ps.foldl (· + ·) p

namespace Orbit

variable (o : Orbit α)

/-- The arrays that Lagrange's coefficients give at anomaly `χ`. -/
def advanceArrays (dt χ : α) (s : Stumpff α) : ArrayMotion α :=
  let start := ArrayMotion.ofMotion o.start
  let r := start.combine (1.0 - χ * χ / o.radius * s.c2) (dt - χ * χ * χ / sqrt o.mu * s.c3)
  let rMag := sqrt (innerProduct r r)
  let gDot := 1.0 - χ * χ / rMag * s.c2
  let fDot := sqrt o.mu / (rMag * o.radius) * χ * (o.psi χ * s.c3 - 1.0)
  ⟨r, start.combine fDot gDot⟩

theorem advanceArrays_eq (dt χ : α) (s : Stumpff α) :
    o.advanceArrays dt χ s = .ofMotion (o.advance dt χ s) := rfl

/-- The arrays after `dt` seconds. -/
def coastArrays (stumpff : α → Stumpff α) (config : KeplerConfig α) (dt : α) :
    Except (Fault α) (ArrayMotion α) :=
  let unknown := List.replicate 3 nan
  if o.mu > 0.0 then
    if dt == 0.0 then .ok (.ofMotion o.start)
    else if o.isRegular dt then
      match o.solve stumpff config dt with
      | .solved χ => .ok (o.advanceArrays dt χ (stumpff (o.psi χ)))
      | .diverged => .ok ⟨unknown, unknown⟩
      | .exhausted lastStep =>
        .error (.propagation (.keplerNotConverged config.maxIterations dt o.alpha lastStep))
    else .ok ⟨unknown, unknown⟩
  else .error (.configuration (.gravityNotPositive o.mu))

theorem coastArrays_eq (stumpff : α → Stumpff α) (config : KeplerConfig α) (dt : α) :
    o.coastArrays stumpff config dt = (o.coast stumpff config dt).map .ofMotion := by
  simp only [coastArrays, coast, advanceArrays_eq]
  split
  · split
    · rfl
    · split
      · cases o.solve stumpff config dt <;> rfl
      · rfl
  · rfl

end Orbit

/-- A coast on arrays, of which the motion is made. -/
def propagateArrays (config : KeplerConfig α) (mu : α) (start : Motion α) (dt : α) :
    Except (Fault α) (Motion α) := do
  (← Orbit.coastArrays ⟨start, mu⟩ stumpff config dt).toMotion

/-- The check is passed by whatever a coast ends in. -/
theorem propagateArrays_eq (config : KeplerConfig α) (mu : α) :
    propagateArrays config mu = propagate config mu := by
  funext start dt
  rw [propagateArrays, Orbit.coastArrays_eq, propagate]
  cases Orbit.coast stumpff config ⟨start, mu⟩ dt with
  | error => rfl
  | ok m => exact ArrayMotion.toMotion_ofMotion m

end Kepler

end LowThrust
