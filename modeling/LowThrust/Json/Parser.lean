import LowThrust.Decimal.Numeral
import LowThrust.Json.Basic

/-!
Reading JSON. Besides the standard's values, `NaN`, `Infinity` and `-Infinity` are numbers. A
number with a point or an exponent is a real, any other an integer.
-/

namespace LowThrust.Json

inductive ReadError where
  | malformed
  /-- An integer of more digits than are read. -/
  | longInteger
  deriving DecidableEq, Repr

variable {α : Type}

def isBlank (c : Char) : Bool := c = ' ' || c = '\t' || c = '\n' || c = '\r'

def skipBlanks (cs : List Char) : List Char := cs.dropWhile isBlank

def hexValue? (c : Char) : Option Nat :=
  if '0' ≤ c ∧ c ≤ '9' then some (c.toNat - '0'.toNat)
  else if 'a' ≤ c ∧ c ≤ 'f' then some (c.toNat - 'a'.toNat + 10)
  else if 'A' ≤ c ∧ c ≤ 'F' then some (c.toNat - 'A'.toNat + 10)
  else none

/-- Characters that stand for themselves or a control after a backslash. -/
def escaped? : Char → Option Nat
  | '"' => some 0x22
  | '\\' => some 0x5C
  | '/' => some 0x2F
  | 'b' => some 0x08
  | 'f' => some 0x0C
  | 'n' => some 0x0A
  | 'r' => some 0x0D
  | 't' => some 0x09
  | _ => none

/-- A string after its opening quote, as code points and units of sixteen bits, and what follows
the closing quote. -/
def stringUnits? : List Char → Option (List Nat × List Char)
  | [] => none
  | '"' :: rest => some ([], rest)
  | '\\' :: 'u' :: a :: b :: c :: d :: rest => do
    let unit := 4096 * (← hexValue? a) + 256 * (← hexValue? b) + 16 * (← hexValue? c) +
      (← hexValue? d)
    let (units, rest) ← stringUnits? rest
    some (unit :: units, rest)
  | '\\' :: e :: rest => do
    let unit ← escaped? e
    let (units, rest) ← stringUnits? rest
    some (unit :: units, rest)
  | c :: rest => do
    if c.toNat < 0x20 then none
    let (units, rest) ← stringUnits? rest
    some (c.toNat :: units, rest)

/-- Two halves of a surrogate pair, one after the other, are one code point. -/
def joinSurrogates : List Nat → List Nat
  | high :: low :: rest =>
    if 0xD800 ≤ high ∧ high < 0xDC00 ∧ 0xDC00 ≤ low ∧ low < 0xE000 then
      (0x10000 + 0x400 * (high - 0xD800) + (low - 0xDC00)) :: joinSurrogates rest
    else high :: joinSurrogates (low :: rest)
  | units => units

def string? (cs : List Char) : Except ReadError (List Nat × List Char) :=
  match stringUnits? cs with
  | some (units, rest) => .ok (joinSurrogates units, rest)
  | none => .error .malformed

/-- The digits before a point. A zero in front of others stands alone. -/
def splitWhole : List Char → List Char × List Char
  | '0' :: rest => (['0'], rest)
  | cs => (cs.takeWhile Char.isDigit, cs.dropWhile Char.isDigit)

/-- The digits after a point, if a point and a digit come next. -/
def fraction? : List Char → Option (List Char × List Char)
  | '.' :: c :: rest =>
    if c.isDigit then
      some (c :: rest.takeWhile Char.isDigit, rest.dropWhile Char.isDigit)
    else none
  | _ => none

/-- The exponent, if a letter, an optional sign and a digit come next. -/
def exponent? : List Char → Option (Int × List Char)
  | e :: rest =>
    let (negative, rest) := Decimal.splitSign rest
    let digits := rest.takeWhile Char.isDigit
    if (e = 'e' ∨ e = 'E') ∧ digits ≠ [] then
      let n := Decimal.digitsValue digits
      some (if negative then -n else n, rest.dropWhile Char.isDigit)
    else none
  | [] => none

/-- Integers are read up to this number of digits. -/
def integerDigits : Nat := 4300

variable [DecimalText α]

/-- A number whose sign has been read. -/
def number (negative : Bool) (cs : List Char) : Except ReadError (Json α × List Char) :=
  let (whole, rest) := splitWhole cs
  if whole = [] then .error .malformed
  else
    let fraction := fraction? rest
    let (digits, rest) := fraction.getD ([], rest)
    let exponent := exponent? rest
    let (power, rest) := exponent.getD (0, rest)
    if fraction.isNone ∧ exponent.isNone then
      if integerDigits < whole.length then .error .longInteger
      else
        let n := Decimal.digitsValue whole
        .ok (.int (if negative then -n else n), rest)
    else .ok (.real (DecimalText.ofDecimal (.ofDigits negative whole digits power)), rest)

mutual

/-- A value at the start of the text, and what follows it. -/
def value (fuel : Nat) (cs : List Char) : Except ReadError (Json α × List Char) :=
  match fuel with
  | 0 => .error .malformed
  | fuel + 1 =>
    match cs with
    | '"' :: rest => do
      let (s, rest) ← string? rest
      return (.str s, rest)
    | '[' :: rest =>
      match skipBlanks rest with
      | ']' :: rest => .ok (.arr [], rest)
      | rest => do
        let (items, rest) ← items fuel rest
        return (.arr items, rest)
    | '{' :: rest =>
      match skipBlanks rest with
      | '}' :: rest => .ok (.obj [], rest)
      | rest => do
        let (members, rest) ← members fuel rest
        return (.obj (collect members), rest)
    | 'n' :: 'u' :: 'l' :: 'l' :: rest => .ok (.null, rest)
    | 't' :: 'r' :: 'u' :: 'e' :: rest => .ok (.bool true, rest)
    | 'f' :: 'a' :: 'l' :: 's' :: 'e' :: rest => .ok (.bool false, rest)
    | 'N' :: 'a' :: 'N' :: rest => .ok (.real (DecimalText.ofDecimal .nan), rest)
    | 'I' :: 'n' :: 'f' :: 'i' :: 'n' :: 'i' :: 't' :: 'y' :: rest =>
      .ok (.real (DecimalText.ofDecimal (.infinite false)), rest)
    | '-' :: 'I' :: 'n' :: 'f' :: 'i' :: 'n' :: 'i' :: 't' :: 'y' :: rest =>
      .ok (.real (DecimalText.ofDecimal (.infinite true)), rest)
    | '-' :: rest => number true rest
    | cs => number false cs

/-- The items of an array up to its closing bracket; there is at least one. -/
def items (fuel : Nat) (cs : List Char) : Except ReadError (List (Json α) × List Char) :=
  match fuel with
  | 0 => .error .malformed
  | fuel + 1 => do
    let (item, rest) ← value fuel cs
    match skipBlanks rest with
    | ',' :: rest =>
      let (more, rest) ← items fuel (skipBlanks rest)
      return (item :: more, rest)
    | ']' :: rest => return ([item], rest)
    | _ => throw .malformed

/-- The members of an object up to its closing brace; there is at least one. -/
def members (fuel : Nat) (cs : List Char) :
    Except ReadError (List (List Nat × Json α) × List Char) :=
  match fuel with
  | 0 => .error .malformed
  | fuel + 1 =>
    match cs with
    | '"' :: rest => do
      let (key, rest) ← string? rest
      match skipBlanks rest with
      | ':' :: rest =>
        let (member, rest) ← value fuel (skipBlanks rest)
        match skipBlanks rest with
        | ',' :: rest =>
          let (more, rest) ← members fuel (skipBlanks rest)
          return ((key, member) :: more, rest)
        | '}' :: rest => return ([(key, member)], rest)
        | _ => throw .malformed
      | _ => throw .malformed
    | _ => .error .malformed

end

/-- The document that a text holds: one value with blanks around it. -/
def parse (cs : List Char) : Except ReadError (Json α) := do
  let (document, rest) ← value (cs.length + 1) (skipBlanks cs)
  if skipBlanks rest = [] then return document else throw .malformed

end LowThrust.Json
