import LowThrust.Decimal.Basic
import LowThrust.Scalar

/-!
Settings of the Kepler solver and of the numerical integrator.
-/

namespace LowThrust

structure KeplerConfig (α : Type) where
  /-- Relative step of the universal anomaly below which the iteration ends. A step that no longer
  shrinks ends it below the square root of this. -/
  tol : α
  maxIterations : Int

structure IntegratorConfig (α : Type) where
  method : String
  rtol : α
  atol : α
  /-- The longest step in seconds; absent, steps are of any length. -/
  maxStep : Option α

structure PropagationConfig (α : Type) where
  kepler : KeplerConfig α
  integrator : IntegratorConfig α

/-- The method of order eight by Dormand and Prince. -/
def dormandPrince : String := "DOP853"

namespace KeplerConfig

def default {α : Type} [OfScientific α] : KeplerConfig α := ⟨1e-13, 100⟩

end KeplerConfig

namespace IntegratorConfig

def default {α : Type} [OfScientific α] : IntegratorConfig α :=
  ⟨dormandPrince, 1e-12, 1e-12, none⟩

end IntegratorConfig

namespace PropagationConfig

variable {α : Type}

def default [OfScientific α] : PropagationConfig α := ⟨.default, .default⟩

/-- The settings in one line. -/
def describe [DecimalText α] (c : PropagationConfig α) : String :=
  "Kepler(tol=" ++ generalText 6 c.kepler.tol ++ ", max_iter=" ++
    toString c.kepler.maxIterations ++ ") + " ++ c.integrator.method ++ "(rtol=" ++
    generalText 6 c.integrator.rtol ++ ", atol=" ++ generalText 6 c.integrator.atol ++ ")"

end PropagationConfig

end LowThrust
