/-!
JSON documents over numbers `α`. Integers are kept apart from other numbers, and a string is a
list of code points, since an escape may name one half of a surrogate pair.
-/

namespace LowThrust

inductive Json (α : Type) where
  | null
  | bool (b : Bool)
  | int (n : Int)
  | real (x : α)
  | str (s : List Nat)
  | arr (items : List (Json α))
  | obj (members : List (List Nat × Json α))

namespace Json

variable {α : Type}

/-- The code points of a text. -/
def codePoints (s : String) : List Nat := s.toList.map Char.toNat

def string (s : String) : Json α := .str (codePoints s)

/-- An object whose keys are texts. -/
def object (members : List (String × Json α)) : Json α :=
  .obj (members.map fun (key, value) => (codePoints key, value))

/-- Sets a member; a key that is there already keeps its place. -/
def insert (members : List (List Nat × Json α)) (key : List Nat) (value : Json α) :
    List (List Nat × Json α) :=
  match members with
  | [] => [(key, value)]
  | (k, v) :: rest => if k = key then (k, value) :: rest else (k, v) :: insert rest key value

/-- The members of an object as they are read: of equal keys the last value counts. -/
def collect (members : List (List Nat × Json α)) : List (List Nat × Json α) :=
  members.foldl (fun ms (key, value) => insert ms key value) []

def lookup (members : List (List Nat × Json α)) (key : String) : Option (Json α) :=
  (members.find? fun (k, _) => k = codePoints key).map Prod.snd

/-- What counts as true: everything but null, false, zero and what is empty. -/
def isTruthy [OfScientific α] [BEq α] : Json α → Bool
  | .null => false
  | .bool b => b
  | .int n => n ≠ 0
  | .real x => !(x == 0.0)
  | .str s => s ≠ []
  | .arr items => !items.isEmpty
  | .obj members => !members.isEmpty

end Json

end LowThrust
