import LowThrust.Scalar

/-!
Vectors of three components, and vectors given as a list of components.
-/

namespace LowThrust

structure Vec3 (α : Type) where
  x : α
  y : α
  z : α
  deriving DecidableEq

namespace Vec3

variable {α : Type}

def map {β : Type} (f : α → β) (v : Vec3 α) : Vec3 β := ⟨f v.x, f v.y, f v.z⟩

def replicate (a : α) : Vec3 α := ⟨a, a, a⟩

def toList (v : Vec3 α) : List α := [v.x, v.y, v.z]

def ofList? : List α → Option (Vec3 α)
  | [a, b, c] => some ⟨a, b, c⟩
  | _ => none

@[simp] theorem length_toList (v : Vec3 α) : v.toList.length = 3 := rfl

@[simp] theorem ofList?_toList (v : Vec3 α) : ofList? v.toList = some v := rfl

/-- A list of one component stands for that component along each axis. -/
def spread? : List α → Option (Vec3 α)
  | [a] => some (replicate a)
  | cs => ofList? cs

@[simp] theorem spread?_toList (v : Vec3 α) : spread? v.toList = some v := rfl

variable [Scalar α]

instance : Add (Vec3 α) := ⟨fun u v => ⟨u.x + v.x, u.y + v.y, u.z + v.z⟩⟩
instance : Sub (Vec3 α) := ⟨fun u v => ⟨u.x - v.x, u.y - v.y, u.z - v.z⟩⟩
instance : HMul α (Vec3 α) (Vec3 α) := ⟨fun a v => v.map (a * ·)⟩
instance : HMul (Vec3 α) α (Vec3 α) := ⟨fun v a => v.map (· * a)⟩
instance : HDiv (Vec3 α) α (Vec3 α) := ⟨fun v a => v.map (· / a)⟩

@[specialize] def dot (u v : Vec3 α) : α := u.x * v.x + u.y * v.y + u.z * v.z

@[specialize] def norm (v : Vec3 α) : α := Scalar.sqrt (v.dot v)

def zero : Vec3 α := replicate 0.0

/-- The vector of a computation without a result. -/
def nan : Vec3 α := replicate Scalar.nan

/-- Componentwise equality of numbers, under which zero has no sign. -/
def same (u v : Vec3 α) : Bool := u.x == v.x && u.y == v.y && u.z == v.z

end Vec3

/-- Euclidean length of a list of components. -/
def magnitude {α : Type} [Scalar α] (cs : List α) : α :=
  Scalar.sqrt (cs.foldl (fun sum c => sum + c * c) 0.0)

end LowThrust
