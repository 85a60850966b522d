import NodeInventory.Json.Reader
import NodeInventory.Number.Binary64

/-!
# Numbers of JSON text

A numeral keeps its digits.  Whether it is in range is decided on a significand of 64 bits and a
power of ten, each rounded to a binary floating point number before they are multiplied.
-/

namespace NodeInventory.Json

structure Numeral where
  negative : Bool
  whole : List UInt8
  fraction : List UInt8
  exponent : Option (Bool × List UInt8)
deriving DecidableEq, Repr

def isDigit (b : UInt8) : Bool := ascii '0' ≤ b && b ≤ ascii '9'

def digitValue (b : UInt8) : Nat := b.toNat - 48

/-- The number that decimal digits spell. -/
def valueOf (digits : List UInt8) : Nat := digits.foldl (fun n b => n * 10 + digitValue b) 0

namespace Numeral

def ofNat (n : Nat) : Numeral := ⟨false, (Nat.toDigits 10 n).map ascii, [], none⟩

/-- The numeral as a natural number, unless it has a sign, a fraction or an exponent. -/
def natural? (n : Numeral) : Option Nat :=
  if n.negative = false ∧ n.fraction = [] ∧ n.exponent = none then some (valueOf n.whole) else none

/-- Takes digits into a significand until one does not fit into 64 bits; the rest is left. -/
def accumulate (significand : Nat) : List UInt8 → Nat × List UInt8
  | [] => (significand, [])
  | b :: digits =>
      let next := significand * 10 + digitValue b
      if next < UInt64.size then accumulate next digits else (significand, b :: digits)

def exponentValue (n : Numeral) : Int :=
  match n.exponent with
  | none => 0
  | some (negative, digits) => if negative then -(valueOf digits : Int) else valueOf digits

/-- Whole numbers of 64 bits are in range, and all whose product with the power of ten is finite. -/
def inRange (n : Numeral) : Bool :=
  let (significand, left) := accumulate 0 n.whole
  if left = [] ∧ n.fraction = [] ∧ n.exponent = none then true
  else
    let (significand, unused) := accumulate significand n.fraction
    let power := n.exponentValue + left.length - (n.fraction.length - unused.length : Nat)
    if significand = 0 ∨ power < 0 then true
    else if 308 < power then false
    else !(Binary64.ofNat significand * Binary64.ofNat (Nat.pow 10 power.toNat)).isInfinite

end Numeral

/-- Digits, at least one; `cut` is the fault where the input ends instead. -/
def digits (cut : Fault) (bytes : List UInt8) : Except Fault (List UInt8 × List UInt8) :=
  match bytes with
  | [] => .error cut
  | b :: _ =>
      if isDigit b then .ok (bytes.takeWhile isDigit, bytes.dropWhile isDigit)
      else .error .malformed

theorem length_lt_of_digits {cut : Fault} {bytes found rest : List UInt8}
    (h : digits cut bytes = .ok (found, rest)) : rest.length < bytes.length := by
  unfold digits at h
  split at h
  · cases h
  next b tail =>
    split at h
    next digit =>
      cases h
      rw [List.dropWhile_cons_of_pos digit]
      exact Nat.lt_succ_of_le (List.dropWhile_suffix _).length_le
    · cases h

/-- The digits before the point; nothing follows a leading zero. -/
def wholeDigits (cut : Fault) (bytes : List UInt8) : Except Fault (List UInt8 × List UInt8) :=
  match digits cut bytes with
  | .error fault => .error fault
  | .ok (found, rest) =>
      if found.head? = some (ascii '0') ∧ found ≠ [ascii '0'] then .error .malformed
      else .ok (found, rest)

theorem length_lt_of_wholeDigits {cut : Fault} {bytes found rest : List UInt8}
    (h : wholeDigits cut bytes = .ok (found, rest)) : rest.length < bytes.length := by
  unfold wholeDigits at h
  split at h
  · cases h
  next read =>
    split at h <;> cases h
    exact length_lt_of_digits read

/-- The digits behind a point, none without one. -/
def fractionDigits (cut : Fault) (bytes : List UInt8) : Except Fault (List UInt8 × List UInt8) :=
  match bytes with
  | [] => .ok ([], [])
  | b :: rest => if b = ascii '.' then digits cut rest else .ok ([], b :: rest)

theorem length_le_of_fractionDigits {cut : Fault} {bytes found rest : List UInt8}
    (h : fractionDigits cut bytes = .ok (found, rest)) : rest.length ≤ bytes.length := by
  unfold fractionDigits at h
  split at h
  · cases h; exact Nat.le_refl _
  next b tail =>
    split at h
    · exact Nat.le_succ_of_le (Nat.le_of_lt (length_lt_of_digits h))
    · cases h; exact Nat.le_refl _

/-- Whether a minus sign stands first, and what follows the sign. -/
def exponentSign : List UInt8 → Bool × List UInt8
  | [] => (false, [])
  | b :: rest =>
      if b = ascii '-' then (true, rest) else if b = ascii '+' then (false, rest)
      else (false, b :: rest)

theorem length_exponentSign_le (bytes : List UInt8) :
    (exponentSign bytes).2.length ≤ bytes.length := by
  unfold exponentSign
  repeat' split
  all_goals simp

def exponentPart (cut : Fault) (bytes : List UInt8) :
    Except Fault (Option (Bool × List UInt8) × List UInt8) :=
  match bytes with
  | [] => .ok (none, [])
  | b :: rest =>
      if b = ascii 'e' ∨ b = ascii 'E' then
        match digits cut (exponentSign rest).2 with
        | .error fault => .error fault
        | .ok (found, tail) => .ok (some ((exponentSign rest).1, found), tail)
      else .ok (none, b :: rest)

theorem length_le_of_exponentPart {cut : Fault} {bytes rest : List UInt8}
    {found : Option (Bool × List UInt8)} (h : exponentPart cut bytes = .ok (found, rest)) :
    rest.length ≤ bytes.length := by
  unfold exponentPart at h
  split at h
  · cases h; exact Nat.le_refl _
  next b tail =>
    split at h
    · split at h
      · cases h
      next read =>
        cases h
        have := length_lt_of_digits read
        have := length_exponentSign_le tail
        simp only [List.length_cons]; omega
    · cases h; exact Nat.le_refl _

/-- A numeral without its minus sign.  One that the input cuts off has the fault `cut`. -/
def unsigned (cut : Fault) (negative : Bool) (bytes : List UInt8) :
    Except Fault (Numeral × List UInt8) :=
  match wholeDigits cut bytes with
  | .error fault => .error fault
  | .ok (whole, rest) =>
      match fractionDigits cut rest with
      | .error fault => .error fault
      | .ok (fraction, rest) =>
          match exponentPart cut rest with
          | .error fault => .error fault
          | .ok (exponent, rest) => .ok (⟨negative, whole, fraction, exponent⟩, rest)

theorem length_lt_of_unsigned {cut : Fault} {negative : Bool} {bytes rest : List UInt8}
    {n : Numeral} (h : unsigned cut negative bytes = .ok (n, rest)) :
    rest.length < bytes.length := by
  unfold unsigned at h
  split at h
  · cases h
  next whole =>
    split at h
    · cases h
    next fraction =>
      split at h
      · cases h
      next exponent =>
        cases h
        have := length_lt_of_wholeDigits whole
        have := length_le_of_fractionDigits fraction
        have := length_le_of_exponentPart exponent
        omega

def numeral (cut : Fault) : List UInt8 → Except Fault (Numeral × List UInt8)
  | [] => .error cut
  | b :: rest => if b = ascii '-' then unsigned cut true rest else unsigned cut false (b :: rest)

theorem length_lt_of_numeral {cut : Fault} {bytes rest : List UInt8} {n : Numeral}
    (h : numeral cut bytes = .ok (n, rest)) : rest.length < bytes.length := by
  unfold numeral at h
  split at h
  · cases h
  next b tail =>
    split at h
    · exact Nat.lt_succ_of_lt (length_lt_of_unsigned h)
    · exact length_lt_of_unsigned h

end NodeInventory.Json
