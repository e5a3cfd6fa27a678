import LowThrust.Config
import LowThrust.State

/-!
What the library asks of a numerical integrator: the solution of `y' = f y`.
-/

namespace LowThrust

structure Integrator (α : Type) where
  /-- The state at the end of a span of time, which may run backward. -/
  final : IntegratorConfig α → (f : State α → State α) → (start final : α) → State α →
    Except (Fault α) (State α)
  /-- The states at increasing times within the span. -/
  sample : IntegratorConfig α → (f : State α → State α) → (start final : α) → State α →
    List α → Except (Fault α) (List (α × State α))

end LowThrust
