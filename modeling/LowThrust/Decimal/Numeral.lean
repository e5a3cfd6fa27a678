import LowThrust.Decimal.Basic
import LowThrust.Text.Blank
import LowThrust.Text.Digit

/-!
Reading a text as a number: blanks around it, an optional sign, digits of any script with single
underscores between them, an optional point and exponent, or the name of an infinite or undefined
value in any case.
-/

namespace LowThrust.Decimal

def digitsValue (ds : List Char) : Nat :=
  ds.foldl (fun n c => 10 * n + (c.toNat - '0'.toNat)) 0

/-- The number with the given digits before and after the point. -/
def ofDigits (negative : Bool) (whole fraction : List Char) (exponent : Int) : Decimal :=
  (Decimal.finite negative (digitsValue (whole ++ fraction))
    (exponent - fraction.length)).normalize

/-- An optional sign and what follows. -/
def splitSign : List Char → Bool × List Char
  | '-' :: cs => (true, cs)
  | '+' :: cs => (false, cs)
  | cs => (false, cs)

/-- The exponent that ends a numeral: nothing, or a letter and an integer. -/
def exponent? : List Char → Option Int
  | [] => some 0
  | e :: cs =>
    let (negative, ds) := splitSign cs
    if (e = 'e' ∨ e = 'E') ∧ ds ≠ [] ∧ ds.all Char.isDigit then
      some (if negative then -digitsValue ds else digitsValue ds)
    else none

def unsigned? (negative : Bool) (cs : List Char) : Option Decimal :=
  let whole := cs.takeWhile Char.isDigit
  let (fraction, rest) := match cs.dropWhile Char.isDigit with
    | '.' :: rest => (rest.takeWhile Char.isDigit, rest.dropWhile Char.isDigit)
    | rest => ([], rest)
  if whole ++ fraction = [] then none
  else (exponent? rest).map (ofDigits negative whole fraction)

/-- An underscore is dropped between two digits and stands nowhere else. -/
def dropUnderscores (afterDigit : Bool) : List Char → Option (List Char)
  | [] => some []
  | '_' :: c :: cs =>
    if afterDigit && c.isDigit then (dropUnderscores true cs).map (c :: ·) else none
  | c :: cs => if c = '_' then none else (dropUnderscores c.isDigit cs).map (c :: ·)

/-- Blanks become spaces and digits the ten familiar ones; no other character outside the first
127 stands in a numeral. -/
def plainChar? (c : Nat) : Option Char :=
  if Text.isBlank c then some ' '
  else if c < 127 then some (Char.ofNat c)
  else (Text.digitValue? c).map Nat.digitChar

def trim (cs : List Char) : List Char :=
  ((cs.dropWhile (· = ' ')).reverse.dropWhile (· = ' ')).reverse

def ofChars? (cs : List Char) : Option Decimal :=
  let (negative, cs) := splitSign cs
  let name := String.ofList (cs.map Char.toLower)
  if name = "nan" then some .nan
  else if name = "inf" ∨ name = "infinity" then some (.infinite negative)
  else (dropUnderscores false cs).bind (unsigned? negative)

/-- The number that a text of code points writes. -/
def ofText? (text : List Nat) : Option Decimal :=
  (text.mapM plainChar?).bind fun cs => ofChars? (trim cs)

end LowThrust.Decimal
