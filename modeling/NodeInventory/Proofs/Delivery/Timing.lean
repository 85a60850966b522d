import NodeInventory.Proofs.Delivery.Cancellation

/-!
# The timing of a delivery

Where a policy waits whole milliseconds and the timer rings exactly when it was set to, every
attempt but the first starts the wait of the policy after the outcome of the one before it.  Nothing
is waited for before the first attempt, nor behind the last.
-/

namespace NodeInventory

/-! ## Waits of whole milliseconds -/

/-- A timer set for whole milliseconds rings in time. -/
theorem Duration.nanos_ofMillis_ticks {d : Duration} (whole : 1000000 ∣ d.nanos) :
    (Duration.ofMillis d.ticks).nanos = d.nanos := by
  obtain ⟨ms, eq⟩ := whole
  rw [Duration.ofMillis_nanos, Duration.ticks]
  omega

/-- The waits of a policy are whole milliseconds where its delay is. -/
theorem RetryPolicy.dvd_of_retry {policy : RetryPolicy} {failures : Nat} {delay : Duration}
    (whole : 1000000 ∣ policy.delay.nanos) (h : policy.afterFailure failures = .retry delay) :
    1000000 ∣ delay.nanos := by
  unfold RetryPolicy.afterFailure at h
  split at h
  · cases h
  · injection h with h
    rw [← h, Duration.max_nanos]
    rcases Nat.le_total (Duration.ofMillis (policy.grownMillis failures)).nanos
      policy.delay.nanos with le | le
    · rw [Nat.max_eq_right le]
      exact whole
    · rw [Nat.max_eq_left le]
      exact Nat.dvd_mul_left _ _

namespace Publisher

open Transport

variable {publisher : Publisher} {replies : Replies} {now n : Nat}

/-- A timer that rings exactly leaves no rounding between an outcome and the next attempt. -/
theorem nanos_startAt_succ {delay : Duration} (whole : 1000000 ∣ publisher.policy.delay.nanos)
    (decision : publisher.policy.afterFailure (n + 1) = .retry delay) :
    (Duration.ofMillis (publisher.startAt .exact replies now (n + 1))).nanos =
      (Duration.ofMillis (publisher.knownAt .exact replies now n)).nanos + delay.nanos := by
  have wait := Duration.nanos_ofMillis_ticks (RetryPolicy.dvd_of_retry whole decision)
  rw [startAt_succ, pause_of_retry decision, Timer.wait_exact]
  simp only [Duration.ofMillis_nanos] at wait ⊢
  rw [Nat.add_mul, wait]

/-! ## The schedule that a policy asks for -/

/-- A delivery that is called at a time keeps to its policy. -/
structure Punctual (policy : RetryPolicy) (replies : Replies) (now : Nat) (delivery : Delivery) :
    Prop where
  /-- The first attempt starts at the call. -/
  first : ∃ attempt, delivery.attempts.head? = some attempt ∧ attempt.start = now
  /-- Any other one starts the wait after the outcome of the one before it. -/
  later : ∀ n before attempt, delivery.attempts[n]? = some before →
    delivery.attempts[n + 1]? = some attempt →
      ∃ delay, policy.afterFailure (n + 1) = .retry delay ∧
        (Duration.ofMillis attempt.start).nanos =
          (Duration.ofMillis (before.start + (replies n).latency)).nanos + delay.nanos
  /-- No attempt starts while another is under way. -/
  apart : ∀ m n before attempt, m < n → delivery.attempts[m]? = some before →
    delivery.attempts[n]? = some attempt → before.start + (replies m).latency ≤ attempt.start
  /-- The delivery is over when the outcome of the last attempt is known. -/
  last : lastKnown replies delivery = some delivery.finish

/-- Every delivery keeps to a policy of whole milliseconds, whatever comes of its attempts and
however long they take. -/
theorem publish_punctual (endpoint : String) (maxAttempts : UInt32) (delay : Nat)
    (factor : Binary64) (report : Report) (replies : Replies) (now : Nat) :
    let publisher : Publisher := ⟨endpoint, .of maxAttempts (.ofMillis delay) factor⟩
    Punctual publisher.policy replies now (publisher.publish .exact report replies now) := by
  intro publisher
  have whole : 1000000 ∣ publisher.policy.delay.nanos := Nat.dvd_mul_left _ _
  obtain ⟨last, course⟩ := exists_course_publish publisher .exact report replies now
  constructor
  case first =>
    rw [course.attempts_eq_cons]
    exact ⟨_, rfl, rfl⟩
  case later =>
    intro n before attempt at_n at_succ
    obtain ⟨-, rfl⟩ := course.getElem?_attempts.1 at_n
    obtain ⟨lt, rfl⟩ := course.getElem?_attempts.1 at_succ
    -- an attempt follows only where the one before it failed and another is allowed
    obtain ⟨-, wait, decision⟩ := failed_of_closing?_eq_none (course.goes_on n (Nat.zero_le _) lt)
    exact ⟨wait, decision, nanos_startAt_succ whole decision⟩
  case apart =>
    intro m n before attempt lt at_m at_n
    obtain ⟨-, rfl⟩ := course.getElem?_attempts.1 at_m
    obtain ⟨-, rfl⟩ := course.getElem?_attempts.1 at_n
    exact Nat.le_trans (publisher.knownAt_le_startAt_succ .exact replies now m)
      (publisher.startAt_mono .exact replies now lt)
  case last => rw [course.lastKnown_eq, course.finish_eq_knownAt]

end Publisher

end NodeInventory
