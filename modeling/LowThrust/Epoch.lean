import LowThrust.Constants
import LowThrust.Decimal.Basic

/-!
Points in time.
-/

namespace LowThrust

/-- Days since 2000-01-01 00:00. -/
structure Epoch (α : Type) where
  mjd2000 : α
  deriving DecidableEq

namespace Epoch

variable {α : Type}

section Arithmetic

variable [Scalar α]

def ofMJD (mjd : α) : Epoch α := ⟨mjd - originMJD⟩

def mjd (t : Epoch α) : α := t.mjd2000 + originMJD

/-- Seconds since the origin of epochs. -/
def seconds (t : Epoch α) : α := t.mjd2000 * secondsPerDay

/-- Elapsed days, negative if `s` is the later epoch. -/
def daysSince (t s : Epoch α) : α := t.mjd2000 - s.mjd2000

def secondsSince (t s : Epoch α) : α := (t.mjd2000 - s.mjd2000) * secondsPerDay

instance : LT (Epoch α) := ⟨fun s t => s.mjd2000 < t.mjd2000⟩
instance : LE (Epoch α) := ⟨fun s t => s.mjd2000 ≤ t.mjd2000⟩
instance : DecidableLT (Epoch α) := fun s t => inferInstanceAs (Decidable (s.mjd2000 < t.mjd2000))
instance : DecidableLE (Epoch α) := fun s t => inferInstanceAs (Decidable (s.mjd2000 ≤ t.mjd2000))

def same (s t : Epoch α) : Bool := s.mjd2000 == t.mjd2000

def origin : Epoch α := ⟨0.0⟩

end Arithmetic

variable [DecimalText α]

def text (t : Epoch α) : String := generalText 10 t.mjd2000 ++ " MJD2000"

/-- The epoch with every digit. -/
def exactText (t : Epoch α) : String := "Epoch(mjd2000=" ++ LowThrust.exactText t.mjd2000 ++ ")"

end Epoch

end LowThrust
