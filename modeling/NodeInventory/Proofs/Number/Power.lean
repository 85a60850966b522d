import Mathlib.Algebra.Group.Action.Defs
import NodeInventory.Proofs.Number.Rounding

/-!
# Powers and the end of the range

Powers of two are bounds that rounding keeps to: a power of a number between two of them lies
between their powers.  It is infinite where the lower one is 2¹⁰²⁴ or more, and finite where the
upper one is below.
-/

namespace NodeInventory.Number

theorem two_pow_mul_one (k : Nat) : 2 ^ k * one = Nat.pow 2 (k + 1074) := by
  unfold one
  generalize 1074 = s
  rw [Nat.pow_eq, Nat.pow_eq, pow_add]

theorem dvd_two_pow (k : Nat) : gap (2 ^ k * one) ∣ 2 ^ k * one := by
  have shifted := dvd_shifted (by decide : 1 ≤ Nat.pow 2 53) (k + 1074)
  rwa [Nat.one_mul, ← two_pow_mul_one] at shifted

theorem two_pow_lt {k : Nat} (range : k < 1024) : 2 ^ k * one < overflow := by
  rw [two_pow_mul_one]
  exact two_pow_lt_overflow (Nat.add_lt_add_right range 1074)

theorem overflow_le {k : Nat} (beyond : 1024 ≤ k) : overflow ≤ 2 ^ k * one := by
  rw [two_pow_mul_one]
  have le : width ≤ k + 1074 := Nat.add_le_add_right beyond 1074
  unfold overflow
  generalize width = w at le ⊢
  exact Nat.pow_le_pow_right (by decide) le

end NodeInventory.Number

namespace NodeInventory.Binary64

open Number

attribute [local irreducible] Number.one overflow

/-- A positive number or zero, up to a whole number. -/
def AtMost (n : Nat) : Binary64 → Prop
  | .finite false u _ => u ≤ n * Number.one
  | _ => False

variable {a k : Nat} {x y : Binary64}

theorem AtLeast.mul_two_pow {i j : Nat} (large : AtLeast (2 ^ i) x) (large' : AtLeast (2 ^ j) y) :
    AtLeast (2 ^ (i + j)) (x * y) :=
  large.mul (Nat.two_pow_pos i) (Nat.two_pow_pos j) large' (pow_add 2 i j).le (dvd_two_pow _)

theorem AtMost.mul_two_pow {i j : Nat} (small : AtMost (2 ^ i) x) (small' : AtMost (2 ^ j) y)
    (range : i + j < 1024) : AtMost (2 ^ (i + j)) (x * y) := by
  match x, y with
  | .finite false u _, .finite false v _ =>
      have below : nearest (u * v) Number.one ≤ 2 ^ (i + j) * Number.one := by
        calc nearest (u * v) Number.one
            ≤ nearest (2 ^ i * Number.one * (2 ^ j * Number.one)) Number.one :=
              nearest_mono Number.one_pos (Nat.mul_le_mul small small')
          _ = nearest (2 ^ (i + j) * Number.one * Number.one) Number.one := by
              congr 1
              rw [pow_add]
              ring
          _ = 2 ^ (i + j) * Number.one := nearest_mul_right (dvd_two_pow _) Number.one_pos
      have inside : nearest (u * v) Number.one < overflow := below.trans_lt (two_pow_lt range)
      show AtMost _ (ofRatio (false != false) (u * v) Number.one)
      rw [ofRatio, dif_pos inside]
      exact below

theorem atLeast_one_one : AtLeast (2 ^ 0) 1 := atLeast_ofNat (by decide) (Nat.le_refl 1)

theorem atMost_one_one : AtMost (2 ^ 0) 1 := by
  have one : (1 : Binary64) = .finite false (1 * Number.one) _ := ofNat_of_le (by decide)
  rw [one]
  exact Nat.le_refl _

theorem AtLeast.pow (large : AtLeast (2 ^ a) x) (e : Nat) : AtLeast (2 ^ (a * e)) (x.pow e) := by
  have power := powTimes_of_mul (P := fun (i : Multiplicative Nat) x => AtLeast (2 ^ i.toAdd) x)
    (m := 1) (k := .ofAdd a) AtLeast.mul_two_pow atLeast_one_one large e
  rw [one_mul, toAdd_pow, toAdd_ofAdd, smul_eq_mul, Nat.mul_comm] at power
  exact power

theorem AtMost.pow (small : AtMost (2 ^ a) x) {e : Nat} (range : a * e < 1024) :
    AtMost (2 ^ (a * e)) (x.pow e) := by
  have passes {i j : Multiplicative Nat} {x y : Binary64}
      (small : i.toAdd < 1024 → AtMost (2 ^ i.toAdd) x)
      (small' : j.toAdd < 1024 → AtMost (2 ^ j.toAdd) y) :
      (i * j).toAdd < 1024 → AtMost (2 ^ (i * j).toAdd) (x * y) := by
    intro range
    rw [toAdd_mul] at range ⊢
    exact (small (by omega)).mul_two_pow (small' (by omega)) range
  have power := powTimes_of_mul
    (P := fun (i : Multiplicative Nat) x => i.toAdd < 1024 → AtMost (2 ^ i.toAdd) x)
    passes (m := 1) (k := .ofAdd a) (fun _ => atMost_one_one) (fun _ => small) e
  rw [one_mul, toAdd_pow, toAdd_ofAdd, smul_eq_mul, Nat.mul_comm] at power
  exact power range

/-- From 2¹⁰²⁴ on there is infinity only. -/
theorem AtLeast.eq_infinite (large : AtLeast (2 ^ k) x) (beyond : 1024 ≤ k) :
    x = .infinite false := by
  match x with
  | .infinite false => rfl
  | .finite false u representable =>
      exact absurd representable.1 (Nat.not_lt.2 ((overflow_le beyond).trans large))

end NodeInventory.Binary64
