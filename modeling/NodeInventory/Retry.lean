import NodeInventory.Duration
import NodeInventory.Number.Literal

/-!
# Retrying after a failure

A policy allows a number of attempts and sets the wait after each failed one.  The wait grows by a
constant factor, and growth stops at a minute; a longer delay that the policy itself asks for is
kept.
-/

namespace NodeInventory

structure RetryPolicy where
  maxAttempts : UInt32
  delay : Duration
  factor : Binary64
  maxAttempts_pos : 0 < maxAttempts
  factor_isFinite : factor.isFinite = true
  factor_not_lt_one : factor.lt 1 = false
deriving DecidableEq, Repr

inductive RetryDecision
  | retry (delay : Duration)
  | exhausted
deriving DecidableEq, Repr

theorem Binary64.one_isFinite : (1 : Binary64).isFinite = true := by decide +kernel

@[simp] theorem Binary64.lt_self (x : Binary64) : x.lt x = false := by simp [Binary64.lt]

theorem Binary64.ne_nan_of_isFinite {x : Binary64} (h : x.isFinite = true) : x ≠ .nan := by
  intro eq; rw [eq] at h; cases h

namespace RetryPolicy

/-- A factor under which the wait never shrinks; where the given one is none of those, the wait is
constant. -/
def clampFactor (factor : Binary64) : Binary64 := if factor.isFinite then factor.max 1 else 1

theorem clampFactor_isFinite (factor : Binary64) : (clampFactor factor).isFinite = true := by
  unfold clampFactor
  split
  next finite =>
    unfold Binary64.max
    split
    · exact Binary64.one_isFinite
    split
    · exact finite
    split
    · exact Binary64.one_isFinite
    · exact finite
  next => exact Binary64.one_isFinite

theorem clampFactor_not_lt_one (factor : Binary64) : (clampFactor factor).lt 1 = false := by
  unfold clampFactor
  split
  next finite =>
    unfold Binary64.max
    rw [if_neg (Binary64.ne_nan_of_isFinite finite),
      if_neg (Binary64.ne_nan_of_isFinite Binary64.one_isFinite)]
    split
    · exact Binary64.lt_self 1
    next not_lt => exact Bool.eq_false_iff.2 not_lt
  next => exact Binary64.lt_self 1

theorem clampFactor_eq_self {factor : Binary64} (finite : factor.isFinite = true)
    (not_lt : factor.lt 1 = false) : clampFactor factor = factor := by
  unfold clampFactor Binary64.max
  rw [if_pos finite, if_neg (Binary64.ne_nan_of_isFinite finite),
    if_neg (Binary64.ne_nan_of_isFinite Binary64.one_isFinite), if_neg (Bool.eq_false_iff.1 not_lt)]

/-- At least one attempt is made, and the wait never shrinks. -/
def of (maxAttempts : UInt32) (delay : Duration) (factor : Binary64) : RetryPolicy where
  maxAttempts := if maxAttempts = 0 then 1 else maxAttempts
  delay := delay
  factor := clampFactor factor
  maxAttempts_pos := by
    split
    · decide
    · exact UInt32.pos_iff_ne_zero.2 ‹_›
  factor_isFinite := clampFactor_isFinite factor
  factor_not_lt_one := clampFactor_not_lt_one factor

/-- The same wait after every failure. -/
def fixed (maxAttempts : UInt32) (delay : Duration) : RetryPolicy := of maxAttempts delay 1

/-- The power of the factor after so many failures. -/
def growth (failures : Nat) : Nat := min (failures - 1) 0x7FFFFFFF

/-- The grown delay in whole milliseconds, at most a minute.  A product that is not a number, of no
delay and infinite growth, counts as a minute too. -/
def grownMillis (policy : RetryPolicy) (failures : Nat) : Nat :=
  let grown := Binary64.ofNat policy.delay.millis * policy.factor.pow (growth failures)
  (grown.min 60000).truncate (UInt64.size - 1)

def afterFailure (policy : RetryPolicy) (failures : Nat) : RetryDecision :=
  if policy.maxAttempts.toNat ≤ failures then .exhausted
  else .retry (max (.ofMillis (policy.grownMillis failures)) policy.delay)

theorem lt_maxAttempts_of_retry {policy : RetryPolicy} {failures : Nat} {delay : Duration}
    (h : policy.afterFailure failures = .retry delay) : failures < policy.maxAttempts.toNat := by
  unfold afterFailure at h
  split at h
  · cases h
  · omega

theorem maxAttempts_le_of_exhausted {policy : RetryPolicy} {failures : Nat}
    (h : policy.afterFailure failures = .exhausted) : policy.maxAttempts.toNat ≤ failures := by
  unfold afterFailure at h
  split at h
  · assumption
  · cases h

theorem maxAttempts_toNat_pos (policy : RetryPolicy) : 0 < policy.maxAttempts.toNat :=
  UInt32.lt_iff_toNat_lt.1 policy.maxAttempts_pos

/-- A number of failures after which a policy still allows an attempt. -/
abbrev Survivable (policy : RetryPolicy) := { failures : UInt32 // failures < policy.maxAttempts }

def noFailures (policy : RetryPolicy) : policy.Survivable := ⟨0, policy.maxAttempts_pos⟩

namespace Survivable

variable {policy : RetryPolicy} (failures : policy.Survivable)

theorem toNat_lt : failures.val.toNat < policy.maxAttempts.toNat :=
  UInt32.lt_iff_toNat_lt.1 failures.2

/-- The counter of failures does not wrap around. -/
theorem toNat_add_one : (failures.val + 1).toNat = failures.val.toNat + 1 := by
  have := toNat_lt failures
  have := policy.maxAttempts.toNat_lt
  rw [UInt32.toNat_add, UInt32.toNat_one]
  omega

end Survivable

/-- The bound that a policy keeps is the one it is given, and one at least. -/
theorem of_maxAttempts_toNat (maxAttempts : UInt32) (delay : Duration) (factor : Binary64) :
    (of maxAttempts delay factor).maxAttempts.toNat = max 1 maxAttempts.toNat := by
  simp only [of]
  split
  next zero => subst zero; rfl
  next nonzero =>
    have := UInt32.lt_iff_toNat_lt.1 (UInt32.pos_iff_ne_zero.2 nonzero)
    rw [UInt32.toNat_zero] at this
    omega

/-- The wait after a failure is never shorter than the delay of the policy. -/
theorem delay_le_of_retry {policy : RetryPolicy} {failures : Nat} {delay : Duration}
    (h : policy.afterFailure failures = .retry delay) : policy.delay.nanos ≤ delay.nanos := by
  unfold afterFailure at h
  split at h
  · cases h
  · injection h with h
    rw [← h, Duration.max_nanos]
    exact Nat.le_max_right _ _

end RetryPolicy

end NodeInventory
