import Mathlib.Algebra.Order.Field.Power
import Mathlib.Tactic.FieldSimp
import Mathlib.Tactic.Linarith
import Mathlib.Tactic.Positivity
import Mathlib.Tactic.Ring
import NodeInventory.Proofs.Json.Spelling
import NodeInventory.Proofs.Number.Range

/-!
# Numerals and the range of numbers

A numeral is judged by the significand that its digits fill and a power of ten.  Digits that no
longer fit are cut, so that what is judged stands for the numeral up to one in 10¹⁸, whichever way
the digits are written.
-/

namespace NodeInventory.Json

open Binary64

/-! ## Digits -/

variable {digits : List UInt8}

theorem foldl_digits (start : Nat) (digits : List UInt8) :
    digits.foldl (fun n b => n * 10 + digitValue b) start =
      start * 10 ^ digits.length + valueOf digits := by
  induction digits generalizing start with
  | nil => simp [valueOf]
  | cons b digits ih =>
      have own : valueOf (b :: digits) = (0 * 10 + digitValue b) * 10 ^ digits.length +
          valueOf digits := ih _
      rw [List.foldl_cons, ih, own, List.length_cons, pow_succ]
      ring

theorem valueOf_cons (b : UInt8) (digits : List UInt8) :
    valueOf (b :: digits) = digitValue b * 10 ^ digits.length + valueOf digits := by
  have split : valueOf (b :: digits) = _ := foldl_digits (0 * 10 + digitValue b) digits
  rw [split, Nat.zero_mul, Nat.zero_add]

theorem valueOf_append (digits more : List UInt8) :
    valueOf (digits ++ more) = valueOf digits * 10 ^ more.length + valueOf more := by
  rw [valueOf, List.foldl_append, ← valueOf, foldl_digits]

theorem digitValue_le {b : UInt8} (digit : isDigit b = true) : digitValue b ≤ 9 := by
  rw [isDigit, Bool.and_eq_true, decide_eq_true_iff, decide_eq_true_iff] at digit
  have le : b.toNat ≤ 57 := UInt8.le_iff_toNat_le.1 digit.2
  rw [digitValue]
  omega

theorem valueOf_lt (all : ∀ b ∈ digits, isDigit b = true) :
    valueOf digits < 10 ^ digits.length := by
  induction digits with
  | nil => exact Nat.one_pos
  | cons b digits ih =>
      obtain ⟨digit, all⟩ := List.forall_mem_cons.1 all
      have first := Nat.mul_le_mul_right (10 ^ digits.length) (digitValue_le digit)
      have rest := ih all
      rw [valueOf_cons, List.length_cons, pow_succ]
      omega

/-- Digits that go on from a whole number, whose last digit counts `place` powers of ten. -/
def placed (start : Nat) (digits : List UInt8) (place : Int) : ℚ :=
  (start * 10 ^ digits.length + valueOf digits : Nat) * 10 ^ (place - digits.length)

theorem placed_nil (start : Nat) (place : Int) : placed start [] place = start * 10 ^ place := by
  simp [placed, valueOf]

theorem placed_append (start : Nat) (taken digits : List UInt8) (place : Int) :
    placed start (taken ++ digits) place =
      placed (start * 10 ^ taken.length + valueOf taken) digits (place - taken.length) := by
  rw [placed, placed, valueOf_append, List.length_append, pow_add]
  congr 2
  · ring
  · push_cast
    ring

theorem ten_pow_mul_zpow (length : Nat) (place : Int) :
    (10 : ℚ) ^ length * 10 ^ (place - length) = 10 ^ place := by
  rw [← zpow_natCast, ← zpow_add₀ (by norm_num)]
  congr 1
  ring

theorem placed_eq_add (start : Nat) (digits : List UInt8) (place : Int) :
    placed start digits place =
      start * 10 ^ place + valueOf digits * 10 ^ (place - digits.length) := by
  rw [placed, ← ten_pow_mul_zpow digits.length place]
  push_cast
  ring

theorem le_placed (start : Nat) (digits : List UInt8) (place : Int) :
    start * 10 ^ place ≤ placed start digits place := by
  rw [placed_eq_add]
  exact le_add_of_nonneg_right (by positivity)

theorem placed_le (start : Nat) (all : ∀ b ∈ digits, isDigit b = true) (place : Int) :
    placed start digits place ≤ (start + 1) * 10 ^ place := by
  have below : (valueOf digits : ℚ) ≤ 10 ^ digits.length := by exact_mod_cast (valueOf_lt all).le
  rw [placed_eq_add, add_mul, one_mul, ← ten_pow_mul_zpow digits.length place]
  gcongr

/-! ## What is cut -/

/-- Two numbers that differ by one in 10¹⁸ at most. -/
structure Near (a b : ℚ) : Prop where
  le : a * margin ≤ b * (margin + 1 : Nat)
  ge : b * margin ≤ a * (margin + 1 : Nat)

theorem Near.refl {a : ℚ} (nonneg : 0 ≤ a) : Near a a := by
  have le : a * margin ≤ a * (margin + 1 : Nat) :=
    mul_le_mul_of_nonneg_left (by exact_mod_cast Nat.le_succ margin) nonneg
  exact ⟨le, le⟩

/-- Numbers that start with the same significand, where it is large enough. -/
theorem near_of_placed {start : Nat} (full : margin ≤ start) {digits digits' : List UInt8}
    (all : ∀ b ∈ digits, isDigit b = true) (all' : ∀ b ∈ digits', isDigit b = true) (place : Int) :
    Near (placed start digits place) (placed start digits' place) := by
  have close {digits digits' : List UInt8} (all : ∀ b ∈ digits, isDigit b = true) :
      placed start digits place * margin ≤ placed start digits' place * (margin + 1 : Nat) := by
    have steps : (start + 1) * margin ≤ start * (margin + 1) := by
      rw [Nat.add_mul, Nat.mul_add, Nat.one_mul, Nat.mul_one]
      exact Nat.add_le_add_left full _
    calc placed start digits place * margin
        ≤ (start + 1) * 10 ^ place * margin := by
          gcongr
          exact placed_le start all place
      _ = ((start + 1) * margin : Nat) * 10 ^ place := by
          push_cast
          ring
      _ ≤ (start * (margin + 1) : Nat) * 10 ^ place := by gcongr
      _ = start * 10 ^ place * (margin + 1 : Nat) := by
          push_cast
          ring
      _ ≤ placed start digits' place * (margin + 1 : Nat) := by
          gcongr
          exact le_placed start digits' place
  exact ⟨close all, close all'⟩

namespace Numeral

/-- What filling a significand of 64 bits with digits comes to. -/
structure Fills (start : Nat) (digits : List UInt8) (significand : Nat) (left : List UInt8) :
    Prop where
  fits : significand < UInt64.size
  taken : ∃ taken, digits = taken ++ left ∧
    significand = start * 10 ^ taken.length + valueOf taken
  full : left ≠ [] → margin ≤ significand

theorem fills_accumulate {start : Nat} (fits : start < UInt64.size)
    (all : ∀ b ∈ digits, isDigit b = true) :
    Fills start digits (accumulate start digits).1 (accumulate start digits).2 := by
  induction digits generalizing start with
  | nil => exact ⟨fits, ⟨[], rfl, by simp [accumulate, valueOf]⟩, fun more => absurd rfl more⟩
  | cons b digits ih =>
      obtain ⟨digit, all⟩ := List.forall_mem_cons.1 all
      rw [accumulate]
      split
      next next_fits =>
        obtain ⟨fits, ⟨taken, split, eq⟩, full⟩ := ih next_fits all
        refine ⟨fits, ⟨b :: taken, congrArg (b :: ·) split, ?_⟩, full⟩
        rw [eq, valueOf_cons, List.length_cons, pow_succ]
        ring
      next beyond =>
        refine ⟨fits, ⟨[], rfl, by simp [valueOf]⟩, fun _ => ?_⟩
        have := digitValue_le digit
        have : UInt64.size = 18446744073709551616 := rfl
        rw [margin]
        omega

/-- The number that a numeral stands for, its sign left out. -/
def magnitude (n : Numeral) : ℚ :=
  valueOf (n.whole ++ n.fraction) * 10 ^ (n.exponentValue - n.fraction.length)

theorem magnitude_eq_placed (n : Numeral) :
    n.magnitude = placed 0 (n.whole ++ n.fraction) (n.exponentValue + n.whole.length) := by
  rw [placed, magnitude, Nat.zero_mul, Nat.zero_add, List.length_append]
  congr 2
  push_cast
  ring

/-! ## What is judged -/

/-- The significand by which a numeral is judged. -/
def significand (n : Numeral) : Nat := (accumulate (accumulate 0 n.whole).1 n.fraction).1

/-- The power of ten that goes with the significand: digits cut in front of the point add to it, and
those taken behind the point lessen it. -/
def power (n : Numeral) : Int :=
  n.exponentValue + (accumulate 0 n.whole).2.length -
    (n.fraction.length - (accumulate (accumulate 0 n.whole).1 n.fraction).2.length : Nat)

/-- A numeral whose parts are digits. -/
structure HasDigits (n : Numeral) : Prop where
  whole : ∀ b ∈ n.whole, isDigit b = true
  fraction : ∀ b ∈ n.fraction, isDigit b = true

theorem HasDigits.of_spelled {n : Numeral} {text : List UInt8} (spelled : SpellsNumeral n text) :
    HasDigits n := by
  cases spelled with
  | parts whole _ fraction _ =>
      refine ⟨whole.2, ?_⟩
      cases fraction with
      | none => exact nofun
      | some digits => exact digits.2

variable {n : Numeral}

theorem fills_whole (digits : HasDigits n) :
    Fills 0 n.whole (accumulate 0 n.whole).1 (accumulate 0 n.whole).2 :=
  fills_accumulate (by decide) digits.whole

theorem fills_fraction (digits : HasDigits n) :
    Fills (accumulate 0 n.whole).1 n.fraction n.significand
      (accumulate (accumulate 0 n.whole).1 n.fraction).2 :=
  fills_accumulate (fills_whole digits).fits digits.fraction

theorem significand_lt (digits : HasDigits n) : n.significand < 2 ^ 64 :=
  (fills_fraction digits).fits

/-- Digits may be cut at two places; behind a cut in front of the point the significand is filled up
from behind it. -/
theorem near_cut {first significand : Nat} {left fraction taken unused : List UInt8}
    (digits : ∀ b ∈ left ++ fraction, isDigit b = true) (split : fraction = taken ++ unused)
    (filled : significand = first * 10 ^ taken.length + valueOf taken)
    (full : left ≠ [] → margin ≤ first) (full' : unused ≠ [] → margin ≤ significand)
    (place : Int) : Near (significand * 10 ^ (place + left.length - taken.length))
      (placed first (left ++ fraction) (place + left.length)) := by
  subst split
  obtain ⟨-, behind⟩ := List.forall_mem_append.1 digits
  obtain ⟨inside, outside⟩ := List.forall_mem_append.1 behind
  rw [← placed_nil]
  cases left with
  | nil =>
      rw [List.nil_append, placed_append, ← filled]
      cases unused with
      | nil =>
          rw [placed_nil]
          exact .refl (by positivity)
      | cons b unused =>
          exact near_of_placed (full' (List.cons_ne_nil _ _)) (List.forall_mem_nil _) outside _
  | cons b left =>
      -- both go on from what was filled in front of the point, if with different digits
      rw [filled, ← placed_append, List.append_nil]
      exact near_of_placed (full (List.cons_ne_nil _ _)) inside digits _

theorem near_magnitude (digits : HasDigits n) :
    Near (n.significand * 10 ^ n.power) n.magnitude := by
  obtain ⟨-, ⟨taken, whole, first⟩, full⟩ := fills_whole digits
  obtain ⟨-, ⟨taken', fraction, significand⟩, full'⟩ := fills_fraction digits
  have power : n.power = n.exponentValue + (accumulate 0 n.whole).2.length - taken'.length := by
    have lengths := congrArg List.length fraction
    rw [List.length_append] at lengths
    rw [Numeral.power]
    omega
  have split : n.magnitude = placed (accumulate 0 n.whole).1
      ((accumulate 0 n.whole).2 ++ n.fraction)
      (n.exponentValue + (accumulate 0 n.whole).2.length) := by
    have lengths := congrArg List.length whole
    rw [List.length_append] at lengths
    have parts : n.whole ++ n.fraction = taken ++ ((accumulate 0 n.whole).2 ++ n.fraction) := by
      rw [← List.append_assoc, ← whole]
    rw [magnitude_eq_placed, parts, placed_append, ← first, lengths]
    congr 1
    push_cast
    ring
  have all := digits.whole
  rw [whole, List.forall_mem_append] at all
  rw [split, power]
  exact near_cut (List.forall_mem_append.2 ⟨all.2, digits.fraction⟩) fraction significand full
    full' _

theorem inRange_eq (n : Numeral) : n.inRange =
    if (accumulate 0 n.whole).2 = [] ∧ n.fraction = [] ∧ n.exponent = none then true
    else if n.significand = 0 ∨ n.power < 0 then true
    else if greatestPower < n.power then false
    else !(Binary64.ofNat n.significand * Binary64.ofNat (Nat.pow 10 n.power.toNat)).isInfinite :=
  rfl

theorem inRange_iff (digits : HasDigits n) : n.inRange = true ↔
    n.significand = 0 ∨ n.power < 0 ∨
      n.power ≤ greatestPower ∧ ¬Overflows n.significand n.power.toNat := by
  rw [inRange_eq]
  split
  next plain =>
    obtain ⟨all, no_fraction, no_exponent⟩ := plain
    have power : n.power = 0 := by
      rw [Numeral.power, exponentValue, all, no_fraction, no_exponent]
      rfl
    have finite : ¬Overflows n.significand 0 :=
      not_overflows_of_lt (significand_lt digits) (by decide)
    rw [power]
    exact iff_of_true rfl (.inr (.inr ⟨by decide, finite⟩))
  split
  next small => exact iff_of_true rfl (small.imp id .inl)
  next large =>
    obtain ⟨nonzero, nonneg⟩ := not_or.1 large
    rw [or_iff_right nonzero, or_iff_right nonneg]
    split
    next beyond =>
      exact iff_of_false Bool.false_ne_true fun range => absurd range.1 (not_le.2 beyond)
    next range =>
      rw [and_iff_right (not_lt.1 range), Overflows]
      simp

/-! ## Bounds -/

theorem inRange_of_le (digits : HasDigits n) (le : n.magnitude ≤ finiteBound) :
    n.inRange = true := by
  rw [inRange_iff digits]
  by_cases zero : n.significand = 0
  · exact .inl zero
  by_cases low : n.power < 0
  · exact .inr (.inl low)
  obtain ⟨p, power⟩ := Int.eq_ofNat_of_zero_le (not_lt.1 low)
  have below : n.significand * 10 ^ p * margin ≤ finiteBound * (margin + 1) := by
    have near := (near_magnitude digits).le.trans
      (mul_le_mul_of_nonneg_right le (Nat.cast_nonneg (margin + 1)))
    rw [power, zpow_natCast] at near
    exact_mod_cast near
  have range : p ≤ greatestPower := by
    -- a greater power of ten is above the bound by itself
    by_contra beyond
    have least : 10 ^ (greatestPower + 1) ≤ 10 ^ p := Nat.pow_le_pow_right (by decide) (by omega)
    have above : finiteBound * (margin + 1) < 10 ^ (greatestPower + 1) * margin := by
      decide +kernel
    have more : 10 ^ p ≤ n.significand * 10 ^ p :=
      Nat.le_mul_of_pos_left _ (Nat.pos_of_ne_zero zero)
    exact absurd ((Nat.mul_le_mul_right margin (least.trans more)).trans below) (Nat.not_le.2 above)
  rw [power, Int.toNat_natCast]
  exact .inr (.inr ⟨Int.ofNat_le.2 range, not_overflows (significand_lt digits) range below⟩)

theorem not_inRange_of_le (digits : HasDigits n) (le : infiniteBound ≤ n.magnitude) :
    n.inRange = false := by
  have near : (infiniteBound * margin : ℚ) ≤ n.significand * 10 ^ n.power * (margin + 1 : Nat) :=
    (mul_le_mul_of_nonneg_right le (Nat.cast_nonneg margin)).trans (near_magnitude digits).ge
  have nonneg : 0 ≤ n.power := by
    by_contra low
    have small : (n.significand * 10 ^ n.power : ℚ) ≤ (2 ^ 64 : Nat) := by
      calc (n.significand * 10 ^ n.power : ℚ) ≤ n.significand * 1 := by
            gcongr
            exact zpow_le_one_of_nonpos₀ (by norm_num) (not_le.1 low).le
        _ = n.significand := mul_one _
        _ ≤ (2 ^ 64 : Nat) := by exact_mod_cast (significand_lt digits).le
    have above : 2 ^ 64 * (margin + 1) < infiniteBound * margin := by decide +kernel
    have near := near.trans (mul_le_mul_of_nonneg_right small (Nat.cast_nonneg (margin + 1)))
    exact absurd near (not_le.2 (by exact_mod_cast above))
  obtain ⟨p, power⟩ := Int.eq_ofNat_of_zero_le nonneg
  rw [power, zpow_natCast] at near
  have near : infiniteBound * margin ≤ n.significand * 10 ^ p * (margin + 1) := by
    exact_mod_cast near
  rw [Bool.eq_false_iff, Ne, inRange_iff digits, power, Int.toNat_natCast]
  rintro (zero | low | ⟨range, finite⟩)
  · rw [zero, Nat.zero_mul, Nat.zero_mul] at near
    exact absurd near (by decide +kernel)
  · exact absurd low (not_lt.2 (Int.natCast_nonneg p))
  · exact finite (overflows_of_le (significand_lt digits) (Int.ofNat_le.1 range) near)

end Numeral

end NodeInventory.Json
