import NodeInventory.Number.Binary64

/-!
# The shortest decimal that reads back

A decimal reads back as a number when it lies in the interval of values that round to it, ends
included when the significand is even.  For 1, 2, … digits the two neighbours of the value on that
decimal grid are tried; the first grid with a hit gives the digits, of two hits the nearer is
taken, and an exact tie goes up.
-/

namespace NodeInventory.Number

/-- A positive decimal: `digits` times ten to the power `exponent`. -/
structure Decimal where
  digits : Nat
  exponent : Int
deriving DecidableEq, Repr

/-- Decimal digits of a natural number. -/
def digitCount (n : Nat) : Nat := (Nat.toDigits 10 n).length

/-- The `e` with ten to the power `e - 1` at most `u` units and ten to the power `e` above. -/
def magnitude (u : Nat) : Int := (digitCount (u * Nat.pow 10 330 / one) : Int) - 330

/-- The neighbour of `u` units with `n` digits that reads back, if there is one. -/
def decimalOfSize? (u n : Nat) : Option Decimal :=
  let exponent := magnitude u - n
  let up := Nat.pow 10 (-exponent).toNat
  -- quarters of a unit, over the size of one grid step in the same measure
  let value := 4 * u * up
  let step := 4 * one * Nat.pow 10 exponent.toNat
  let significand := u / gap u
  let above := 2 * gap u * up
  let below := if significand = leastSignificand ∧ 0 < spacing u then gap u * up else above
  let even := significand % 2 = 0
  let low := value / step
  let fromLow := value - low * step
  let fromHigh := (low + 1) * step - value
  let lowHits : Bool := fromLow < below || (fromLow == below && even)
  let highHits : Bool := fromHigh < above || (fromHigh == above && even)
  if lowHits && (!highHits || fromLow < fromHigh) then some ⟨low, exponent⟩
  else if highHits then some ⟨low + 1, exponent⟩
  else none

/-- Seventeen digits always read back. -/
def shortest (u : Nat) : Decimal :=
  ((List.range 17).findSome? fun n => decimalOfSize? u (n + 1)).getD ⟨u, 0⟩

/-- All digits written out: no exponent, and a point only before a fraction. -/
def Decimal.positional (d : Decimal) : List Char :=
  let digits := Nat.toDigits 10 d.digits
  if 0 ≤ d.exponent then digits ++ List.replicate d.exponent.toNat '0'
  else
    let places := (-d.exponent).toNat
    let padded := List.replicate (places + 1 - digits.length) '0' ++ digits
    let whole := padded.take (padded.length - places)
    let fraction := ((padded.drop (padded.length - places)).reverse.dropWhile (· = '0')).reverse
    if fraction = [] then whole else whole ++ '.' :: fraction

end NodeInventory.Number

namespace NodeInventory.Binary64

open Number

def text : Binary64 → String
  | .nan => "NaN"
  | .infinite negative => if negative then "-inf" else "inf"
  | .finite negative u _ =>
      let digits := if u = 0 then ['0'] else (shortest u).positional
      String.ofList (if negative then '-' :: digits else digits)

end NodeInventory.Binary64
