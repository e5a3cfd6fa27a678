/-!
The numbers a trajectory is computed in. Every formula of the library is written once over
`Scalar`, so that the same text is run in binary64 and reasoned about in exact arithmetic.
-/

namespace LowThrust

/-- An ordered arithmetic with the elementary functions of flight mechanics. The order need not be
total: a number that is not finite may compare to nothing. -/
class Scalar (α : Type) extends
    Add α, Sub α, Mul α, Div α, Neg α, OfScientific α, LT α, LE α, BEq α where
  decidableLT : DecidableLT α
  decidableLE : DecidableLE α
  /-- Neither infinite nor the result of an undefined operation. -/
  isFinite : α → Bool
  /-- Stands for a result that does not exist. -/
  nan : α
  protected abs : α → α
  sqrt : α → α
  exp : α → α
  log : α → α
  sin : α → α
  cos : α → α
  sinh : α → α
  cosh : α → α
  /-- The least integer that is not below the number. -/
  ceil : α → Int
  ofNat : Nat → α

namespace Scalar

variable {α : Type} [Scalar α]

instance : DecidableLT α := Scalar.decidableLT
instance : DecidableLE α := Scalar.decidableLE

/-- One with the sign of `x`; zero, and what has no sign, are kept. -/
@[specialize] def sign (x : α) : α :=
  if x > 0.0 then 1.0 else if x < 0.0 then -1.0 else if x == 0.0 then 0.0 else x

/-- The greater of `x` and `y`, and `x` when they do not compare. -/
@[specialize] def atLeast (x y : α) : α :=
  if y > x then y else x

@[specialize] def square (x : α) : α := x * x

@[specialize] def cube (x : α) : α := x * x * x

end Scalar

end LowThrust
