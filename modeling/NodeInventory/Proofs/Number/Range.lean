import Mathlib.Algebra.Order.Floor.Div
import NodeInventory.Proofs.Number.Power

/-!
# Whole numbers times powers of ten

The product of a whole number of 64 bits and a power of ten, both rounded before they are
multiplied, is infinite from some number on.  How far that is from the end of the range depends on
the power; two bounds hold for all powers, each with a margin of one in 10¹⁸.
-/

namespace NodeInventory.Binary64

open Number

attribute [local irreducible] Number.one overflow

/-- The units of a whole number after rounding. -/
def whole (n : Nat) : Nat := nearest (n * Number.one) 1

theorem whole_mono {m n : Nat} (le : m ≤ n) : whole m ≤ whole n :=
  nearest_mono Nat.one_pos (Nat.mul_le_mul_right _ le)

theorem whole_lt_of_lt {n : Nat} (fits : n < 2 ^ 64) : whole n < overflow := by
  have top : whole (2 ^ 64) = 2 ^ 64 * Number.one := nearest_one (dvd_two_pow 64)
  exact (whole_mono fits.le).trans_lt (top ▸ two_pow_lt (by decide))

/-- The greatest power of ten in range. -/
def greatestPower : Nat := 308

theorem whole_ten_pow_lt {p : Nat} (le : p ≤ greatestPower) : whole (10 ^ p) < overflow := by
  have top : whole (10 ^ greatestPower) < overflow := by decide +kernel
  exact (whole_mono (Nat.pow_le_pow_right (by decide) le)).trans_lt top

/-- Whether a significand times a power of ten is out of range. -/
def Overflows (significand p : Nat) : Prop :=
  (ofNat significand * ofNat (Nat.pow 10 p)).isInfinite = true

instance (significand p : Nat) : Decidable (Overflows significand p) :=
  inferInstanceAs (Decidable (_ = true))

theorem ofNat_of_lt {n : Nat} (range : whole n < overflow) :
    ofNat n = .finite false (whole n) ⟨range, dvd_nearest _ _⟩ := dif_pos range

variable {significand p : Nat}

theorem overflows_iff (fits : significand < 2 ^ 64) (le : p ≤ greatestPower) :
    Overflows significand p ↔
      overflow ≤ nearest (whole significand * whole (10 ^ p)) Number.one := by
  rw [Overflows, Nat.pow_eq, ofNat_of_lt (whole_lt_of_lt fits), ofNat_of_lt (whole_ten_pow_lt le)]
  show (ofRatio (false != false) _ _).isInfinite = true ↔ _
  rw [ofRatio]
  split
  next range =>
    exact iff_of_false Bool.false_ne_true fun beyond => absurd range (Nat.not_lt.2 beyond)
  next beyond => exact iff_of_true rfl (Nat.le_of_not_lt beyond)

theorem Overflows.mono {m q : Nat} (overflows : Overflows significand p) (le : significand ≤ m)
    (fits : m < 2 ^ 64) (le' : p ≤ q) (range : q ≤ greatestPower) : Overflows m q := by
  rw [overflows_iff (le.trans_lt fits) (le'.trans range)] at overflows
  rw [overflows_iff fits range]
  refine overflows.trans (nearest_mono Number.one_pos (Nat.mul_le_mul (whole_mono le) ?_))
  exact whole_mono (Nat.pow_le_pow_right (by decide) le')

/-! ## Bounds -/

/-- A bound up to which every product is finite. -/
def finiteBound : Nat := 17976931348623156 * 10 ^ 292

/-- A bound from which on every product is infinite. -/
def infiniteBound : Nat := 1797693134862316 * 10 ^ 293

/-- The margin of the bounds, as a share of one. -/
def margin : Nat := 10 ^ 18

/-- The greatest significand with a product up to the bound and its margin. -/
def greatestBelow (p : Nat) : Nat := finiteBound * (margin + 1) / (margin * 10 ^ p)

/-- The least significand with a product from the bound and its margin on. -/
def leastAbove (p : Nat) : Nat := infiniteBound * margin ⌈/⌉ ((margin + 1) * 10 ^ p)

/-- Below this power no significand of 64 bits gets near the bounds. -/
def leastPower : Nat := 289

theorem not_overflows_greatestBelow : ∀ p ≤ greatestPower, leastPower ≤ p →
    greatestBelow p < 2 ^ 64 ∧ ¬Overflows (greatestBelow p) p := by
  decide +kernel

theorem overflows_leastAbove : ∀ p ≤ greatestPower, leastPower ≤ p →
    leastAbove p < 2 ^ 64 ∧ Overflows (leastAbove p) p := by
  decide +kernel

theorem not_overflows_of_lt (fits : significand < 2 ^ 64) (low : p < leastPower) :
    ¬Overflows significand p := by
  intro overflows
  have worst : ¬Overflows (2 ^ 64 - 1) (leastPower - 1) := by decide +kernel
  exact worst (overflows.mono (Nat.le_pred_of_lt fits) (by decide) (Nat.le_pred_of_lt low)
    (by decide))

theorem not_overflows (fits : significand < 2 ^ 64) (range : p ≤ greatestPower)
    (le : significand * 10 ^ p * margin ≤ finiteBound * (margin + 1)) :
    ¬Overflows significand p := by
  rcases Nat.lt_or_ge p leastPower with low | high
  · exact not_overflows_of_lt fits low
  · obtain ⟨fits', finite⟩ := not_overflows_greatestBelow p range high
    have below : significand ≤ greatestBelow p := by
      rw [greatestBelow, Nat.le_div_iff_mul_le (Nat.mul_pos (by decide) (Nat.pow_pos (by decide)))]
      calc significand * (margin * 10 ^ p) = significand * 10 ^ p * margin := by ring
        _ ≤ _ := le
    exact fun overflows => finite (overflows.mono below fits' (Nat.le_refl p) range)

theorem overflows_of_le (fits : significand < 2 ^ 64) (range : p ≤ greatestPower)
    (le : infiniteBound * margin ≤ significand * 10 ^ p * (margin + 1)) :
    Overflows significand p := by
  rcases Nat.lt_or_ge p leastPower with low | high
  · have less : significand * 10 ^ p * (margin + 1) < infiniteBound * margin := by
      calc significand * 10 ^ p * (margin + 1)
          ≤ 2 ^ 64 * 10 ^ (leastPower - 1) * (margin + 1) :=
            Nat.mul_le_mul_right _ (Nat.mul_le_mul fits.le
              (Nat.pow_le_pow_right (by decide) (Nat.le_pred_of_lt low)))
        _ < infiniteBound * margin := by decide +kernel
    exact absurd le (Nat.not_le.2 less)
  · obtain ⟨fits', infinite⟩ := overflows_leastAbove p range high
    have above : leastAbove p ≤ significand := by
      rw [leastAbove, ceilDiv_le_iff_le_mul (Nat.mul_pos (by decide) (Nat.pow_pos (by decide)))]
      calc infiniteBound * margin ≤ significand * 10 ^ p * (margin + 1) := le
        _ = _ := by ring
    exact infinite.mono above fits (Nat.le_refl p) range

end NodeInventory.Binary64
