import LowThrust.Fault
import LowThrust.Vec3

/-!
States of a spacecraft: where it is, how it moves and what it weighs.
-/

namespace LowThrust

/-- Position in km and velocity in km/s. -/
structure Motion (α : Type) where
  position : Vec3 α
  velocity : Vec3 α
  deriving DecidableEq

/-- A motion and a mass in kg. The same seven numbers hold differences of states and rates of
change. -/
structure State (α : Type) extends Motion α where
  mass : α
  deriving DecidableEq

/-- Three components taken from an array of any shape. -/
def Tensor.toVec3 {α : Type} (quantity : Quantity) (t : Tensor α) : Except (Fault α) (Vec3 α) :=
  match Vec3.ofList? t.entries with
  | some v => .ok v
  | none => .error (.configuration (.componentCount quantity t.entries.length))

namespace State

variable {α : Type}

def toList (s : State α) : List α := s.position.toList ++ s.velocity.toList ++ [s.mass]

def ofList? : List α → Option (State α)
  | [rx, ry, rz, vx, vy, vz, m] => some ⟨⟨⟨rx, ry, rz⟩, ⟨vx, vy, vz⟩⟩, m⟩
  | _ => none

@[simp] theorem length_toList (s : State α) : s.toList.length = 7 := rfl

@[simp] theorem ofList?_toList (s : State α) : ofList? s.toList = some s := rfl

/-- Seven components along one axis. -/
def ofTensor (t : Tensor α) : Except (Fault α) (State α) :=
  let shape := Fault.configuration (.stateShape t.shape)
  if t.shape = [7] then
    match ofList? t.entries with
    | some s => .ok s
    | none => .error shape
  else .error shape

section Arithmetic

variable [Scalar α]

instance : Add (State α) :=
  ⟨fun s t => ⟨⟨s.position + t.position, s.velocity + t.velocity⟩, s.mass + t.mass⟩⟩

instance : Sub (State α) :=
  ⟨fun s t => ⟨⟨s.position - t.position, s.velocity - t.velocity⟩, s.mass - t.mass⟩⟩

/-- Every component is finite. -/
def isFinite (s : State α) : Bool := s.toList.all Scalar.isFinite

/-- Equality of all seven numbers; what is not a number differs from itself. -/
def same (s t : State α) : Bool :=
  s.position.same t.position && s.velocity.same t.velocity && s.mass == t.mass

end Arithmetic

/-- Numbers with every digit, in brackets. -/
def listText [DecimalText α] (xs : List α) : String :=
  "[" ++ ", ".intercalate (xs.map exactText) ++ "]"

def exactText [DecimalText α] (s : State α) : String :=
  "ScState(position=" ++ listText s.position.toList ++ ", velocity=" ++
    listText s.velocity.toList ++ ", mass=" ++ LowThrust.exactText s.mass ++ ")"

end State

end LowThrust
