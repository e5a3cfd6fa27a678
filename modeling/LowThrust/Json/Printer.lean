import LowThrust.Decimal.Basic
import LowThrust.Json.Basic

/-!
Writing JSON in characters of ASCII, on one line or with each item on a line of its own.
-/

namespace LowThrust.Json

/-- An indent puts items on lines of their own, indented by so many spaces per level, and by none
if it is negative. -/
structure Style where
  indent : Option Int := none
  sortKeys : Bool := false

/-- The numbers that are not finite have names, and others as many digits as are needed. -/
def numberLayout : Decimal.Layout :=
  { Decimal.Layout.exact with nan := "NaN", infinity := "Infinity" }

/-- A number in base sixteen with at least so many digits. -/
def hexPadded (width n : Nat) : List Char :=
  let ds := Nat.toDigits 16 n
  List.replicate (width - ds.length) '0' ++ ds

def unitEscape (unit : Nat) : List Char := '\\' :: 'u' :: hexPadded 4 unit

/-- A code point within a string; one beyond sixteen bits is written as a surrogate pair. -/
def escape (c : Nat) : List Char :=
  if c = 0x22 then ['\\', '"']
  else if c = 0x5C then ['\\', '\\']
  else if c = 0x0A then ['\\', 'n']
  else if c = 0x0D then ['\\', 'r']
  else if c = 0x09 then ['\\', 't']
  else if c = 0x0C then ['\\', 'f']
  else if c = 0x08 then ['\\', 'b']
  else if 0x20 ≤ c ∧ c ≤ 0x7E then [Char.ofNat c]
  else if c < 0x10000 then unitEscape c
  else unitEscape (0xD800 + (c - 0x10000) / 0x400) ++ unitEscape (0xDC00 + (c - 0x10000) % 0x400)

def quoted (s : List Nat) : List Char := '"' :: s.flatMap escape ++ ['"']

def intChars (n : Int) : List Char :=
  Decimal.signChars (decide (n < 0)) ++ Nat.toDigits 10 n.natAbs

namespace Style

/-- The break before an item at a level. -/
def newline (st : Style) (level : Nat) : List Char :=
  match st.indent with
  | none => []
  | some n => '\n' :: List.replicate (level * n.toNat) ' '

def separator (st : Style) (level : Nat) : List Char :=
  if st.indent.isNone then [',', ' '] else ',' :: st.newline level

/-- Items at a level between brackets at the level around it. -/
def bracket (st : Style) (level : Nat) (opening closing : Char) (items : List (List Char)) :
    List Char :=
  if items.isEmpty then [opening, closing]
  else opening :: st.newline (level + 1) ++
    (items.intersperse (st.separator (level + 1))).flatten ++ st.newline level ++ [closing]

end Style

/-- Texts in the order of the first code points in which they differ; the shorter one first if
there are none. -/
def inOrder : List Nat → List Nat → Bool
  | [], _ => true
  | _ :: _, [] => false
  | c :: s, d :: t => if c = d then inOrder s t else decide (c < d)

/-- Members in the order of their keys. -/
def sortMembers {β : Type} (members : List (List Nat × β)) : List (List Nat × β) :=
  members.mergeSort fun a b => inOrder a.1 b.1

variable {α : Type} [DecimalText α]

mutual

def chars (st : Style) (level : Nat) : Json α → List Char
  | .null => ['n', 'u', 'l', 'l']
  | .bool b => if b then ['t', 'r', 'u', 'e'] else ['f', 'a', 'l', 's', 'e']
  | .int n => intChars n
  | .real x => (DecimalText.shortest x).chars numberLayout
  | .str s => quoted s
  | .arr items => st.bracket level '[' ']' (itemsChars st (level + 1) items)
  | .obj members =>
    let written := membersChars st (level + 1) members
    let written := if st.sortKeys then sortMembers written else written
    st.bracket level '{' '}' (written.map fun (key, cs) => quoted key ++ ':' :: ' ' :: cs)

def itemsChars (st : Style) (level : Nat) : List (Json α) → List (List Char)
  | [] => []
  | item :: items => item.chars st level :: itemsChars st level items

def membersChars (st : Style) (level : Nat) :
    List (List Nat × Json α) → List (List Nat × List Char)
  | [] => []
  | (key, value) :: members => (key, value.chars st level) :: membersChars st level members

end

/-- The text of a document. -/
def print (st : Style) (document : Json α) : List Char := document.chars st 0

end LowThrust.Json
