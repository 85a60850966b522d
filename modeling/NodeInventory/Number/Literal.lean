import NodeInventory.Number.Shortest

/-!
# Reading numbers from text

Whole numbers are digits with an optional plus sign.  Binary floating point numbers are decimals
with an optional sign, fraction and exponent, or the names of infinity and of what is not a number
in any case.
-/

namespace NodeInventory.Number

def isDigit (c : Char) : Bool := '0' ≤ c && c ≤ '9'

def digitValue (c : Char) : Nat := c.toNat - '0'.toNat

/-- The number that decimal digits spell. -/
def valueOf (digits : List Char) : Nat := digits.foldl (fun n c => n * 10 + digitValue c) 0

/-- A whole number at most `bound`. -/
def natural? (bound : Nat) (text : List Char) : Option Nat :=
  let digits := match text with
    | '+' :: rest => rest
    | _ => text
  if digits ≠ [] ∧ digits.all isDigit ∧ valueOf digits ≤ bound then some (valueOf digits) else none

/-- A sign, if there is one, and the rest. -/
def sign (text : List Char) : Bool × List Char :=
  match text with
  | '-' :: rest => (true, rest)
  | '+' :: rest => (false, rest)
  | _ => (false, text)

/-- An exponent up to the end of the text; nothing stands for zero. -/
def exponent? (text : List Char) : Option Int :=
  match text with
  | [] => some 0
  | mark :: rest =>
      if mark = 'e' ∨ mark = 'E' then
        let (negative, digits) := sign rest
        if digits ≠ [] ∧ digits.all isDigit then
          some (if negative then -(valueOf digits : Int) else valueOf digits)
        else none
      else none

/-- An unsigned decimal; it needs a digit before or after the point. -/
def decimal? (text : List Char) : Option Decimal :=
  let whole := text.takeWhile isDigit
  let (fraction, rest) := match text.dropWhile isDigit with
    | '.' :: rest => (rest.takeWhile isDigit, rest.dropWhile isDigit)
    | rest => ([], rest)
  if whole = [] ∧ fraction = [] then none
  else (exponent? rest).map fun e => ⟨valueOf (whole ++ fraction), e - fraction.length⟩

/-- The nearest number to a decimal.  One of more than 310 digits before its point is infinite and
one with 330 zeros behind it is zero, so no great power is ever computed. -/
def Decimal.toBinary64 (negative : Bool) (d : Decimal) : Binary64 :=
  let size := d.exponent + digitCount d.digits
  if d.digits = 0 ∨ size < -330 then .ofRatio negative 0 1
  else if 310 < size then .infinite negative
  else if 0 ≤ d.exponent then .ofRatio negative (d.digits * Nat.pow 10 d.exponent.toNat * one) 1
  else .ofRatio negative (d.digits * one) (Nat.pow 10 (-d.exponent).toNat)

end NodeInventory.Number

namespace NodeInventory.Binary64

open Number

def ofText? (text : String) : Option Binary64 :=
  let (negative, rest) := sign text.toList
  match decimal? rest with
  | some d => some (d.toBinary64 negative)
  | none =>
      let name := String.ofList (rest.map Char.toLower)
      if name = "inf" ∨ name = "infinity" then some (.infinite negative)
      else if name = "nan" then some .nan
      else none

end NodeInventory.Binary64
