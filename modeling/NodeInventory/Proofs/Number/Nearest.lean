import Mathlib.Algebra.Order.Field.Rat
import Mathlib.Tactic.FieldSimp
import Mathlib.Tactic.Linarith
import NodeInventory.Proofs.Number.Rounding

/-!
# The nearest number

A quotient of units lies between two neighbours, with no number of 53 bits between them.  Rounding
takes the closer one, and of two that are as close the one with the even significand.
-/

namespace NodeInventory.Number

attribute [local irreducible] one overflow

/-- A number of units, in whatever range, that is nearest to a magnitude: among those of 53 bits
none is closer, and it has an even significand if another one is as close. -/
structure IsNearest (magnitude : ℚ) (u : Nat) : Prop where
  sharp : gap u ∣ u
  closest : ∀ v, gap v ∣ v → |(u : ℚ) - magnitude| ≤ |(v : ℚ) - magnitude|
  even : ∀ v, gap v ∣ v → v ≠ u → |(v : ℚ) - magnitude| = |(u : ℚ) - magnitude| → 2 ∣ u / gap u

/-! ## Neighbours -/

/-- Two neighbours have nothing between them. -/
theorem le_or_le_of_dvd {v : Nat} (u : Nat) (sharp : gap v ∣ v) :
    v ≤ u / gap u * gap u ∨ (u / gap u + 1) * gap u ≤ v := by
  rcases Nat.lt_or_ge (u / gap u * gap u) v with lt | le
  swap
  · exact .inl le
  have coarse : spacing u ≤ spacing v := by
    rcases Nat.eq_zero_or_pos (spacing u) with zero | pos
    · omega
    have large : leastSignificand ≤ u / gap u :=
      (Nat.le_div_iff_mul_le (Nat.two_pow_pos _)).2 (leastSignificand_le pos)
    have below : leastSignificand * gap u ≤ v := (Nat.mul_le_mul_right _ large).trans lt.le
    have power : leastSignificand * gap u = 2 ^ (52 + spacing u) := by
      rw [gap, Nat.pow_eq, pow_add]
      rfl
    calc spacing u = spacing (2 ^ (52 + spacing u)) := by
          rw [spacing.eq_def (2 ^ _), Nat.log2_two_pow, Nat.add_sub_cancel_left]
      _ ≤ spacing v := spacing_mono (power ▸ below)
  obtain ⟨k, rfl⟩ : gap u ∣ v := (Nat.pow_dvd_pow 2 coarse).trans sharp
  rw [Nat.mul_comm (gap u)] at lt ⊢
  exact .inr (Nat.mul_le_mul_right _ (Nat.lt_of_mul_lt_mul_right lt))

/-- An even significand stays even when it is shifted into its place. -/
theorem two_dvd_div_gap {k : Nat} (even : 2 ∣ k) (le : k ≤ Nat.pow 2 53) (s : Nat) :
    2 ∣ k * Nat.pow 2 s / gap (k * Nat.pow 2 s) := by
  simp only [gap, Nat.pow_eq] at le ⊢
  rcases Nat.eq_or_lt_of_le le with rfl | lt
  · have quotient : 2 ^ 53 * 2 ^ s / 2 ^ spacing (2 ^ 53 * 2 ^ s) = 2 ^ 52 := by
      rw [← Nat.pow_add, spacing, Nat.log2_two_pow, Nat.pow_div (by omega) (by decide)]
      congr 1
      omega
    rw [quotient]
    decide
  · have fine : spacing (k * 2 ^ s) ≤ s := by
      rcases Nat.eq_zero_or_pos k with rfl | pos
      · simp [spacing]
      have small : k * 2 ^ s < 2 ^ (53 + s) := by
        rw [Nat.pow_add]
        exact Nat.mul_lt_mul_of_pos_right lt (Nat.two_pow_pos s)
      have := log2_lt_of_lt (by omega) small
      rw [spacing]
      omega
    obtain ⟨d, hd⟩ := Nat.exists_eq_add_of_le fine
    have shifted : k * 2 ^ s = k * 2 ^ d * 2 ^ spacing (k * 2 ^ s) := by
      conv_lhs => rw [hd, Nat.pow_add, Nat.mul_comm (2 ^ _), ← Nat.mul_assoc]
    have quotient : k * 2 ^ s / 2 ^ spacing (k * 2 ^ s) = k * 2 ^ d := by
      conv_lhs => lhs; rw [shifted]
      exact Nat.mul_div_cancel _ (Nat.two_pow_pos _)
    rw [quotient]
    exact even.mul_right _

section Neighbours

variable {low high : Nat} {magnitude : ℚ}
variable (apart : ∀ v, gap v ∣ v → v ≤ low ∨ high ≤ v)

include apart

/-- The closer one of two neighbours is the nearest number, if it is even where both are as
close. -/
theorem IsNearest.of_neighbour {u : Nat} (sharp : gap u ∣ u) (one : u = low ∨ u = high)
    (lower : |(u : ℚ) - magnitude| ≤ magnitude - low)
    (upper : |(u : ℚ) - magnitude| ≤ high - magnitude)
    (even : magnitude - low = high - magnitude → 2 ∣ u / gap u) : IsNearest magnitude u := by
  have below_le {v : Nat} (le : v ≤ low) : magnitude - low ≤ magnitude - v :=
    sub_le_sub_left (by exact_mod_cast le) _
  have above_le {v : Nat} (le : high ≤ v) : (high : ℚ) - magnitude ≤ v - magnitude :=
    sub_le_sub_right (by exact_mod_cast le) _
  have nonneg := abs_nonneg ((u : ℚ) - magnitude)
  refine ⟨sharp, fun v sharp' => ?closest, fun v sharp' ne same => even ?tie⟩
  case closest =>
    rcases apart v sharp' with le | le
    · rw [abs_sub_comm (v : ℚ)]
      exact (lower.trans (below_le le)).trans (le_abs_self _)
    · exact (upper.trans (above_le le)).trans (le_abs_self _)
  case tie =>
    rcases apart v sharp' with le | le
    · have := below_le le
      rw [abs_sub_comm (v : ℚ), abs_of_nonneg (by linarith)] at same
      obtain rfl : v = low := by exact_mod_cast (by linarith : (v : ℚ) = low)
      obtain rfl : u = high := one.resolve_left ne.symm
      rw [abs_of_nonneg (by linarith)] at same
      exact same
    · have := above_le le
      rw [abs_of_nonneg (by linarith)] at same
      obtain rfl : v = high := by exact_mod_cast (by linarith : (v : ℚ) = high)
      obtain rfl : u = low := one.resolve_right ne.symm
      rw [abs_sub_comm, abs_of_nonneg (by linarith)] at same
      exact same.symm

end Neighbours

/-- A magnitude at an offset from the lower one of two neighbours with the gap `g`. -/
theorem IsNearest.of_offset {m g u : Nat} {x : ℚ}
    (apart : ∀ v, gap v ∣ v → v ≤ m * g ∨ (m + 1) * g ≤ v) (sharp : gap u ∣ u) (nonneg : 0 ≤ x)
    (within : x ≤ g) (closer : u = m * g ∧ 2 * x ≤ g ∨ u = (m + 1) * g ∧ (g : ℚ) ≤ 2 * x)
    (even : 2 * x = g → 2 ∣ u / gap u) : IsNearest (m * g + x) u := by
  have high : (((m + 1) * g : Nat) : ℚ) = m * g + g := by
    push_cast
    ring
  have distance : |(u : ℚ) - (m * g + x)| ≤ x ∧ |(u : ℚ) - (m * g + x)| ≤ g - x := by
    rcases closer with ⟨rfl, le⟩ | ⟨rfl, le⟩
    · rw [Nat.cast_mul, sub_add_cancel_left, abs_neg, abs_of_nonneg nonneg]
      exact ⟨le_rfl, by linarith⟩
    · rw [high, add_sub_add_left_eq_sub, abs_of_nonneg (sub_nonneg.2 within)]
      exact ⟨by linarith, le_rfl⟩
  refine .of_neighbour apart sharp (closer.imp And.left And.left) ?_ ?_ fun tie => even ?_
  · rw [Nat.cast_mul, add_sub_cancel_left]
    exact distance.1
  · rw [high, add_sub_add_left_eq_sub]
    exact distance.2
  · rw [Nat.cast_mul, add_sub_cancel_left, high, add_sub_add_left_eq_sub] at tie
    linarith

/-! ## Only one is the nearest -/

/-- The neighbour above, whose significand is odd where this one is even. -/
theorem not_two_dvd_of_neighbour {u v : Nat} (sharp : gap v ∣ v)
    (next : (u / gap u + 1) * gap u = v) (even : 2 ∣ u / gap u) : ¬2 ∣ v / gap v := by
  have pos : 0 < gap u := Nat.two_pow_pos _
  have le : spacing u ≤ spacing v := by
    refine spacing_mono ?_
    rw [← next, Nat.mul_comm]
    exact (Nat.lt_mul_div_succ u pos).le
  rcases Nat.eq_or_lt_of_le le with same | wider
  · have gaps : gap v = gap u := by rw [gap, gap, same]
    rw [gaps, ← next, Nat.mul_div_cancel _ pos]
    omega
  · have double : 2 * gap u ∣ v := by
      refine Nat.dvd_trans ?_ sharp
      rw [Nat.mul_comm]
      exact Nat.pow_dvd_pow 2 wider
    rw [← next] at double
    have := Nat.dvd_of_mul_dvd_mul_right pos double
    omega

/-- Two numbers are not both the nearest: of neighbours that are as close, one is odd. -/
theorem IsNearest.unique {magnitude : ℚ} {u v : Nat} (nearest : IsNearest magnitude u)
    (nearest' : IsNearest magnitude v) : u = v := by
  have same : |(u : ℚ) - magnitude| = |(v : ℚ) - magnitude| :=
    le_antisymm (nearest.closest v nearest'.sharp) (nearest'.closest u nearest.sharp)
  wlog less : u < v generalizing u v
  · rcases Nat.lt_or_ge v u with more | le
    · exact (this nearest' nearest same.symm more).symm
    · omega
  exfalso
  have less' : (u : ℚ) < v := by exact_mod_cast less
  have middle : 2 * magnitude = u + v := by
    rcases abs_eq_abs.1 same with eq | eq <;> linarith
  have pos : 0 < gap u := Nat.two_pow_pos _
  have significand : u / gap u + 1 ≤ Nat.pow 2 53 :=
    (Nat.div_lt_iff_lt_mul pos).2 (lt_gap_mul u)
  have above : u < (u / gap u + 1) * gap u := by
    rw [Nat.mul_comm]
    exact Nat.lt_mul_div_succ u pos
  -- a number between the two would be closer
  have next : (u / gap u + 1) * gap u = v := by
    rcases le_or_le_of_dvd u nearest'.sharp with le | le
    · exact absurd (le.trans (Nat.div_mul_le_self u _)) (Nat.not_le.2 less)
    refine le.antisymm (Nat.le_of_not_lt fun below => ?_)
    have closest := nearest.closest _ (dvd_shifted significand (spacing u))
    change _ ≤ |(((u / gap u + 1) * gap u : Nat) : ℚ) - magnitude| at closest
    generalize (u / gap u + 1) * gap u = w at *
    have above' : (u : ℚ) < w := by exact_mod_cast above
    have below' : (w : ℚ) < v := by exact_mod_cast below
    rw [abs_of_nonpos (by linarith), le_abs] at closest
    rcases closest with closest | closest <;> linarith
  exact not_two_dvd_of_neighbour nearest'.sharp next
    (nearest.even v nearest'.sharp less.ne' same.symm)
    (nearest'.even u nearest.sharp less.ne same)

/-! ## Rounding -/

theorem two_mul_div_le_iff {t q g : Nat} (hq : 0 < q) :
    2 * ((t : ℚ) / q) ≤ g ↔ 2 * t ≤ q * g := by
  rw [← mul_div_assoc, div_le_iff₀ (by exact_mod_cast hq), mul_comm (g : ℚ)]
  exact_mod_cast Iff.rfl

theorem le_two_mul_div_iff {t q g : Nat} (hq : 0 < q) :
    (g : ℚ) ≤ 2 * ((t : ℚ) / q) ↔ q * g ≤ 2 * t := by
  rw [← mul_div_assoc, le_div_iff₀ (by exact_mod_cast hq), mul_comm (g : ℚ)]
  exact_mod_cast Iff.rfl

theorem isNearest_nearest (p : Nat) {q : Nat} (hq : 0 < q) :
    IsNearest ((p : ℚ) / q) (nearest p q) := by
  have sharp := dvd_nearest p q
  have apart (v : Nat) := le_or_le_of_dvd (v := v) (p / q)
  have even (k : Nat) (even : 2 ∣ k) (le : k ≤ Nat.pow 2 53) :
      2 ∣ k * gap (p / q) / gap (k * gap (p / q)) := two_dvd_div_gap even le _
  have small : p / q / gap (p / q) < Nat.pow 2 53 :=
    (Nat.div_lt_iff_lt_mul (Nat.two_pow_pos _)).2 (lt_gap_mul _)
  have split := Nat.div_add_mod p (q * gap (p / q))
  have rest_lt : p % (q * gap (p / q)) < q * gap (p / q) :=
    Nat.mod_lt p (Nat.mul_pos hq (Nat.two_pow_pos _))
  have rounded : nearest p q = roundDiv p (q * gap (p / q)) * gap (p / q) := rfl
  rw [roundDiv] at rounded
  rw [← Nat.div_div_eq_div_mul] at rounded split
  generalize p / q / gap (p / q) = m at *
  generalize gap (p / q) = g at *
  generalize p % (q * g) = t at *
  have magnitude : (p : ℚ) / q = m * g + t / q := by
    have : (q : ℚ) ≠ 0 := by exact_mod_cast hq.ne'
    rw [← split]
    push_cast
    field_simp
  have nonneg : (0 : ℚ) ≤ t / q := div_nonneg (Nat.cast_nonneg t) (Nat.cast_nonneg q)
  have within : (t : ℚ) / q ≤ g := by
    rw [div_le_iff₀ (by exact_mod_cast hq), mul_comm]
    exact_mod_cast rest_lt.le
  have half (tie : 2 * ((t : ℚ) / q) = g) : 2 * t = q * g :=
    ((two_mul_div_le_iff hq).1 tie.le).antisymm ((le_two_mul_div_iff hq).1 tie.ge)
  rw [magnitude]
  refine .of_offset apart sharp nonneg within ?closer fun tie => ?even
  case closer =>
    split at rounded
    next => exact .inl ⟨rounded, (two_mul_div_le_iff hq).2 (by omega)⟩
    next => exact .inr ⟨rounded, (le_two_mul_div_iff hq).2 (by omega)⟩
  case even =>
    have := half tie
    rw [rounded]
    split
    next => exact even m (by omega) small.le
    next => exact even (m + 1) (by omega) small
end NodeInventory.Number
