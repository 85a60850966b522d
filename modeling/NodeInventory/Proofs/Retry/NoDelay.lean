import NodeInventory.Proofs.Number.Power
import NodeInventory.Proofs.Retry.Backoff

/-!
# Waits without a delay

Nothing grows to nothing, but infinite growth of nothing is not a number, and what is not a number
gives way to the cap.  So a policy whose delay is zero waits for nothing until the power of its
factor leaves the range, and for a minute after every failure from there on
(`afterFailure_of_no_delay`).
-/

namespace NodeInventory.RetryPolicy

open Binary64 (AtLeast AtMost)

attribute [local irreducible] Number.one Number.overflow

variable {policy : RetryPolicy} {failures : Nat}

theorem atLeast_factor (policy : RetryPolicy) : AtLeast (2 ^ 0) policy.factor := by
  have finite := policy.factor_isFinite
  have not_lt := policy.factor_not_lt_one
  have rank_one : (1 : Binary64).rank = (1 * Number.one : Nat) := Binary64.rank_ofNat (by decide)
  have above : (1 * Number.one : Nat) ≤ policy.factor.rank := by
    simpa [Binary64.lt, Binary64.ne_nan_of_isFinite finite, rank_one,
      Binary64.ne_nan_of_isFinite Binary64.one_isFinite] using not_lt
  have pos : 0 < Number.one := Number.one_pos
  cases eq : policy.factor with
  | nan => rw [eq] at finite; cases finite
  | infinite => rw [eq] at finite; cases finite
  | finite negative u =>
      rw [eq] at above
      cases negative with
      | true =>
          have above : (1 * Number.one : Nat) ≤ -(u : Int) := above
          omega
      | false => exact Int.ofNat_le.1 above

/-- Powers of a factor are positive, or infinite. -/
theorem atLeast_pow (policy : RetryPolicy) (e : Nat) : AtLeast (2 ^ 0) (policy.factor.pow e) := by
  have power := policy.atLeast_factor.pow e
  rwa [Nat.zero_mul] at power

/-! ## Nothing, grown -/

theorem zero_mul_of_finite {x : Binary64} (positive : AtLeast (2 ^ 0) x)
    (finite : x.isInfinite = false) : Binary64.ofNat 0 * x = .ofNat 0 := by
  have zero : Binary64.ofNat 0 = .finite false (0 * Number.one) _ :=
    Binary64.ofNat_of_le (Nat.zero_le _)
  match x with
  | .infinite false => cases finite
  | .finite false u _ =>
      have rounded : Number.nearest (0 * Number.one * u) Number.one = 0 * Number.one := by
        rw [Nat.zero_mul, Nat.zero_mul]
        have exactly := Number.nearest_mul_right (u := 0) (Nat.dvd_zero _) Number.one_pos
        rwa [Nat.zero_mul] at exactly
      rw [zero]
      exact Binary64.ofRatio_eq rounded _

theorem zero_mul_of_infinite {x : Binary64} (infinite : x.isInfinite = true) :
    Binary64.ofNat 0 * x = .nan := by
  have zero : Binary64.ofNat 0 = .finite false (0 * Number.one) _ :=
    Binary64.ofNat_of_le (Nat.zero_le _)
  match x with
  | .infinite negative =>
      rw [zero]
      exact if_pos (Nat.zero_mul _)

theorem grownMillis_of_finite (none : policy.delay.millis = 0)
    (finite : (policy.factor.pow (growth failures)).isInfinite = false) :
    policy.grownMillis failures = 0 := by
  have known : Binary64.UpTo cap 0 (.ofNat 0) := .exact (Nat.zero_le _)
  rw [grownMillis, none, zero_mul_of_finite (policy.atLeast_pow _) finite, truncate_min_cap known]
  exact Nat.zero_min 60000

theorem grownMillis_of_infinite (none : policy.delay.millis = 0)
    (infinite : (policy.factor.pow (growth failures)).isInfinite = true) :
    policy.grownMillis failures = 60000 := by
  have given_way : Binary64.min .nan 60000 = .ofNat 60000 := if_pos rfl
  rw [grownMillis, none, zero_mul_of_infinite infinite, given_way, Binary64.ofNat_of_le (by decide),
    Binary64.truncate_whole]
  exact Nat.min_eq_left (by decide)

theorem afterFailure_of_finite (none : policy.delay.millis = 0)
    (left : failures < policy.maxAttempts.toNat)
    (finite : (policy.factor.pow (growth failures)).isInfinite = false) :
    policy.afterFailure failures = .retry policy.delay := by
  rw [afterFailure_of_lt left, grownMillis_of_finite none finite,
    max_ofMillis_eq_self (Nat.zero_le _)]

theorem afterFailure_of_infinite (none : policy.delay.millis = 0)
    (left : failures < policy.maxAttempts.toNat)
    (infinite : (policy.factor.pow (growth failures)).isInfinite = true) :
    policy.afterFailure failures = .retry (.ofSecs 60) := by
  have longer : max (Duration.ofMillis 60000) policy.delay = .ofSecs 60 := by
    refine congrArg Duration.mk (Nat.max_eq_left ?_)
    rw [Duration.millis] at none
    rw [Duration.ofMillis_nanos]
    omega
  rw [afterFailure_of_lt left, grownMillis_of_infinite none infinite, longer]

/-! ## Where growth is infinite -/

theorem finite_pow_of_atMost {a : Nat} (small : AtMost (2 ^ a) policy.factor)
    (range : a * (failures - 1) < 1024) :
    (policy.factor.pow (growth failures)).isInfinite = false := by
  have le : a * growth failures ≤ a * (failures - 1) := Nat.mul_le_mul_left a (Nat.min_le_left ..)
  have power := small.pow (le.trans_lt range)
  match eq : policy.factor.pow (growth failures) with
  | .finite .. => rfl
  | .nan => rfl
  | .infinite negative => rw [eq] at power; cases power

theorem infinite_pow_of_atLeast {a : Nat} (large : AtLeast (2 ^ a) policy.factor)
    (beyond : 1024 ≤ a * (failures - 1)) :
    (policy.factor.pow (growth failures)).isInfinite = true := by
  have pos : 0 < a := Nat.pos_of_ne_zero fun zero => by
    rw [zero, Nat.zero_mul] at beyond
    exact absurd beyond (by decide)
  have reached : 1024 ≤ a * growth failures := by
    rcases Nat.le_total (failures - 1) 0x7FFFFFFF with within | late
    · rwa [growth, Nat.min_eq_left within]
    · rw [growth, Nat.min_eq_right late]
      exact Nat.le_trans (by decide) (Nat.le_mul_of_pos_left 0x7FFFFFFF pos)
  rw [(large.pow (growth failures)).eq_infinite reached]
  rfl

/-- Under a delay of less than a millisecond, zero included, the wait is the delay where the power
of the factor is finite, and a minute where it is infinite.  A factor up to 2ᵃ gives no such wait
before the power 2¹⁰²⁴ is reached, and a factor from 2ᵃ on gives nothing else from there on. -/
theorem afterFailure_of_no_delay (policy : RetryPolicy) (none : policy.delay.millis = 0)
    {failures : Nat} (left : failures < policy.maxAttempts.toNat) :
    policy.afterFailure failures =
      .retry (if (policy.factor.pow (growth failures)).isInfinite then .ofSecs 60
        else policy.delay) ∧
    (∀ a, AtMost (2 ^ a) policy.factor → a * (failures - 1) < 1024 →
      policy.afterFailure failures = .retry policy.delay) ∧
    (∀ a, AtLeast (2 ^ a) policy.factor → 1024 ≤ a * (failures - 1) →
      policy.afterFailure failures = .retry (.ofSecs 60)) := by
  refine ⟨?_, fun a small range => ?_, fun a large beyond => ?_⟩
  · split
    next infinite => exact afterFailure_of_infinite none left infinite
    next finite => exact afterFailure_of_finite none left (Bool.eq_false_iff.2 finite)
  · exact afterFailure_of_finite none left (finite_pow_of_atMost small range)
  · exact afterFailure_of_infinite none left (infinite_pow_of_atLeast large beyond)

theorem factor_of_two (maxAttempts : UInt32) (delay : Duration) :
    (of maxAttempts delay 2).factor = 2 := by
  have two : (2 : Binary64) = .finite false (2 * Number.one) _ := Binary64.ofNat_of_le (by decide)
  show clampFactor 2 = 2
  rw [two]
  exact clampFactor_whole (by decide) _

theorem atLeast_factor_of_two (maxAttempts : UInt32) (delay : Duration) :
    AtLeast (2 ^ 1) (of maxAttempts delay 2).factor := by
  rw [factor_of_two]
  exact Binary64.atLeast_ofNat (by decide) (Nat.le_refl 2)

/-- Doubled nothing stays nothing for 1024 failures. -/
theorem afterFailure_of_no_delay_doubled :
    (of 2000 ⟨0⟩ 2).delay.millis = 0 ∧ 1025 < (of 2000 ⟨0⟩ 2).maxAttempts.toNat ∧
      (of 2000 ⟨0⟩ 2).afterFailure 1024 = .retry ⟨0⟩ ∧
      (of 2000 ⟨0⟩ 2).afterFailure 1025 = .retry (.ofSecs 60) := by
  have none : (of 2000 ⟨0⟩ 2).delay.millis = 0 := rfl
  have left : 1025 < (of 2000 ⟨0⟩ 2).maxAttempts.toNat := by decide
  have small : AtMost (2 ^ 1) (of 2000 ⟨0⟩ 2).factor := by
    have two : (2 : Binary64) = .finite false (2 * Number.one) _ :=
      Binary64.ofNat_of_le (by decide)
    rw [factor_of_two, two]
    exact Nat.le_refl _
  obtain ⟨-, stays, -⟩ := afterFailure_of_no_delay _ none (Nat.lt_of_succ_lt left)
  obtain ⟨-, -, leaves⟩ := afterFailure_of_no_delay _ none left
  exact ⟨none, left, stays 1 small (by decide), leaves 1 (atLeast_factor_of_two _ _) (by decide)⟩

/-- A policy without a delay, with a finite factor and with attempts left waits for a minute. -/
theorem afterFailure_of_nothing_doubled :
    (of 2000 ⟨0⟩ 2).delay = ⟨0⟩ ∧ (of 2000 ⟨0⟩ 2).factor.isFinite = true ∧
      1025 < (of 2000 ⟨0⟩ 2).maxAttempts.toNat ∧
      (of 2000 ⟨0⟩ 2).afterFailure 1025 = .retry (.ofSecs 60) ∧
      (of 2000 ⟨0⟩ 2).afterFailure 1025 ≠ .retry ⟨0⟩ := by
  have left : 1025 < (of 2000 ⟨0⟩ 2).maxAttempts.toNat := by decide
  have minute : (of 2000 ⟨0⟩ 2).afterFailure 1025 = .retry (.ofSecs 60) :=
    afterFailure_of_infinite rfl left
      (infinite_pow_of_atLeast (atLeast_factor_of_two _ _) (by decide))
  refine ⟨rfl, factor_isFinite _, left, minute, ?_⟩
  rw [minute]
  decide

end NodeInventory.RetryPolicy
