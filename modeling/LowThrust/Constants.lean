import LowThrust.Scalar

/-!
Units: kilometres, seconds, kilograms, newtons. Epochs are in days.
-/

namespace LowThrust

variable {α : Type} [Scalar α]

def secondsPerDay : α := 86400.0

def daysPerSecond : α := 1.0 / secondsPerDay

/-- Modified Julian Date of 2000-01-01 00:00, the origin of epochs. -/
def originMJD : α := 51544.0

/-- Standard gravitational acceleration, in m/s². -/
def standardGravity : α := 9.80665

def kmPerMetre : α := 1.0e-3

end LowThrust
