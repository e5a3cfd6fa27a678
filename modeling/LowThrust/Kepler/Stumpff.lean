import LowThrust.Scalar

/-!
Stumpff functions. Near zero, where the closed forms cancel, they are summed as a series.
-/

namespace LowThrust.Kepler

open Scalar

/-- The values of `C(ψ) = (1 - cos √ψ) / ψ` and `S(ψ) = (√ψ - sin √ψ) / √ψ³` at one `ψ`. -/
structure Stumpff (α : Type) where
  c2 : α
  c3 : α

variable {α : Type} [Scalar α]

/-- Below this `|ψ|` the series are used. -/
def seriesBound : α := 1e-3

def seriesC2 (ψ : α) : α :=
  0.5 + ψ * (-1.0 / 24.0 + ψ * (1.0 / 720.0 + ψ * (-1.0 / 40320.0 + ψ / 3628800.0)))

def seriesC3 (ψ : α) : α :=
  1.0 / 6.0 + ψ * (-1.0 / 120.0 + ψ * (1.0 / 5040.0 + ψ * (-1.0 / 362880.0 + ψ / 39916800.0)))

def closedC2 (ψ : α) : α :=
  if ψ > 0.0 then (1.0 - cos (sqrt ψ)) / ψ
  else (cosh (sqrt (-ψ)) - 1.0) / (-ψ)

def closedC3 (ψ : α) : α :=
  if ψ > 0.0 then
    let s := sqrt ψ
    (s - sin s) / cube s
  else
    let s := sqrt (-ψ)
    (sinh s - s) / cube s

def stumpffC2 (ψ : α) : α := if Scalar.abs ψ < seriesBound then seriesC2 ψ else closedC2 ψ

def stumpffC3 (ψ : α) : α := if Scalar.abs ψ < seriesBound then seriesC3 ψ else closedC3 ψ

def stumpff (ψ : α) : Stumpff α := ⟨stumpffC2 ψ, stumpffC3 ψ⟩

end LowThrust.Kepler
