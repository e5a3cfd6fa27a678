import LowThrust.Scalar
import LowThrust.Binary64.Basic

/-!
Binary64 numbers as the arithmetic that runs.
-/

namespace LowThrust

instance : Scalar Float where
  decidableLT := Float.decLt
  decidableLE := Float.decLe
  isFinite := Float.isFinite
  nan := 0.0 / 0.0
  abs := Float.abs
  sqrt := Float.sqrt
  exp := Float.exp
  log := Float.log
  sin := Float.sin
  cos := Float.cos
  sinh := Float.sinh
  cosh := Float.cosh
  ceil := Binary64.ceil
  ofNat := Float.ofNat

end LowThrust
