import LowThrust.Json.Printer
import LowThrust.Text.Printable

/-!
How a JSON value is named in a message: capitalised constants, strings in single quotes unless they
hold one and no double quote, and characters of any script shown as they are.
-/

namespace LowThrust.Json

def shownChar (quote c : Nat) : List Char :=
  if c = quote then ['\\', Char.ofNat quote]
  else if c = 0x5C then ['\\', '\\']
  else if c = 0x0A then ['\\', 'n']
  else if c = 0x0D then ['\\', 'r']
  else if c = 0x09 then ['\\', 't']
  else if Text.isPrintable c then [Char.ofNat c]
  else if c < 0x100 then '\\' :: 'x' :: hexPadded 2 c
  else if c < 0x10000 then '\\' :: 'u' :: hexPadded 4 c
  else '\\' :: 'U' :: hexPadded 8 c

def shownString (s : List Nat) : List Char :=
  let quote := if 0x27 ∈ s ∧ 0x22 ∉ s then 0x22 else 0x27
  Char.ofNat quote :: s.flatMap (shownChar quote) ++ [Char.ofNat quote]

def commaSeparated (items : List (List Char)) : List Char :=
  (items.intersperse [',', ' ']).flatten

variable {α : Type} [DecimalText α]

mutual

def shown : Json α → List Char
  | .null => "None".toList
  | .bool b => if b then "True".toList else "False".toList
  | .int n => intChars n
  | .real x => (DecimalText.shortest x).chars .exact
  | .str s => shownString s
  | .arr items => '[' :: commaSeparated (shownItems items) ++ [']']
  | .obj members => '{' :: commaSeparated (shownMembers members) ++ ['}']

def shownItems : List (Json α) → List (List Char)
  | [] => []
  | item :: items => item.shown :: shownItems items

def shownMembers : List (List Nat × Json α) → List (List Char)
  | [] => []
  | (key, value) :: members =>
    (shownString key ++ ':' :: ' ' :: value.shown) :: shownMembers members

end

/-- The name of a value's kind in messages. -/
def kindName : Json α → String
  | .null => "NoneType"
  | .bool _ => "bool"
  | .int _ => "int"
  | .real _ => "float"
  | .str _ => "str"
  | .arr _ => "list"
  | .obj _ => "dict"

end LowThrust.Json
