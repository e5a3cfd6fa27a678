import LowThrust.Scalar
import LowThrust.Decimal.Numeral
import LowThrust.Json.Basic

/-!
Numbers and arrays of numbers taken from JSON values.
-/

namespace LowThrust

/-- Why a JSON value is not taken as a number or as an array of numbers. -/
inductive NumberFault where
  /-- The value is of a kind that stands for no number. -/
  | wrongKind
  /-- A text that writes no number. -/
  | notANumber
  /-- An array whose rows differ in shape. -/
  | ragged
  | tooManyAxes
  /-- An integer beyond the greatest number. -/
  | tooLarge
  deriving DecidableEq, Repr

/-- An array of numbers in row-major order. -/
structure Tensor (α : Type) where
  shape : List Nat
  entries : List α

/-- The entries of an array that extends along its last axis only. -/
def Tensor.row? {α : Type} (t : Tensor α) : Option (List α) :=
  if t.shape.dropLast.all (· = 1) then some t.entries else none

namespace Json

variable {α : Type} [Scalar α] [DecimalText α]

def toNumber : Json α → Except NumberFault α
  | .bool b => .ok (if b then 1.0 else 0.0)
  | .int n => match DecimalText.ofInt? n with
    | some x => .ok x
    | none => .error .tooLarge
  | .real x => .ok x
  | .str s => match Decimal.ofText? s with
    | some d => .ok (DecimalText.ofDecimal d)
    | none => .error .notANumber
  | .null | .arr _ | .obj _ => .error .wrongKind

/-- An absent entry of an array counts as a number that does not exist. -/
def toEntry : Json α → Except NumberFault α
  | .null => .ok Scalar.nan
  | j => j.toNumber

mutual

/-- The common shape of all rows, if they have one. -/
def shape? : Json α → Option (List Nat)
  | .arr items => (rowShape? items).map (items.length :: ·)
  | _ => some []

/-- The shape of each of the rows; that of no row is the empty one. -/
def rowShape? : List (Json α) → Option (List Nat)
  | [] => some []
  | [row] => row.shape?
  | row :: rows => do
    let first ← row.shape?
    let others ← rowShape? rows
    if first = others then some first else none

end

mutual

def entries : Json α → Except NumberFault (List α)
  | .arr items => itemEntries items
  | j => return [← j.toEntry]

def itemEntries : List (Json α) → Except NumberFault (List α)
  | [] => .ok []
  | item :: items => do
    let first ← item.entries
    return first ++ (← itemEntries items)

end

/-- The number of axes that an array has at most. -/
def axisLimit : Nat := 64

/-- The array that a value writes. Its shape is settled before its entries are read. -/
def toTensor (j : Json α) : Except NumberFault (Tensor α) :=
  match j.shape? with
  | none => .error .ragged
  | some shape =>
    if axisLimit < shape.length then .error .tooManyAxes else return ⟨shape, ← j.entries⟩

end Json

end LowThrust
