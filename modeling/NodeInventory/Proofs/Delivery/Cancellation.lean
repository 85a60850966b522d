import NodeInventory.Proofs.Delivery.Schedule

/-!
# A shutdown during a delivery

`publishUntil` makes the attempts of `publish` as far as they start before the shutdown, and the
first one in any case.  Where these do not settle the delivery, it ends with the shutdown or with
the last of them, whichever is later.
-/

namespace NodeInventory.Publisher

open Shutdown Transport

variable {publisher : Publisher} {timer : Timer} {replies : Replies} {now : Nat}

/-! ## Waits that take time -/

/-- A wait after a failure takes time where the delay of the policy does. -/
theorem pause_pos (positive : 0 < publisher.policy.delay.nanos) {failures : Nat} {delay : Duration}
    (decision : publisher.policy.afterFailure failures = .retry delay) :
    0 < publisher.pause timer failures := by
  have le := RetryPolicy.delay_le_of_retry decision
  have ticks : 0 < delay.ticks := by
    simp only [Duration.ticks]
    omega
  rw [pause_of_retry decision]
  exact timer.wait_pos ticks

theorem knownAt_lt_startAt_succ (positive : 0 < publisher.policy.delay.nanos) {n : Nat}
    {event : Option Event} {tie : Nat → Branch}
    (goes_on : publisher.closing? timer replies now event tie n = none) :
    publisher.knownAt timer replies now n < publisher.startAt timer replies now (n + 1) := by
  obtain ⟨-, delay, decision⟩ := failed_of_closing?_eq_none goes_on
  rw [startAt_succ]
  exact Nat.lt_add_of_pos_right (pause_pos positive decision)

/-! ## Both deliveries, attempt by attempt -/

section Compare

variable {event : Event} {tie tie' : Nat → Branch} {n : Nat}

/-- What settles a delivery without a shutdown settles it with one. -/
theorem closing?_of_closing?_none {settled : Except DeliveryError Ack × Nat}
    (h : publisher.closing? timer replies now none tie' n = some settled) (event : Option Event) :
    publisher.closing? timer replies now event tie n = some settled := by
  cases outcome : (replies n).outcome with
  | ok receipt =>
      rw [closing?_of_ok outcome] at h ⊢
      exact h
  | error error =>
      cases decision : publisher.policy.afterFailure (n + 1) with
      | exhausted =>
          rw [closing?_of_exhausted outcome decision] at h ⊢
          exact h
      | retry delay =>
          rw [closing?_of_retry outcome decision, race_none] at h
          cases h

/-- A shutdown can only settle a delivery in the wait after an attempt, and no later than the wait
ends. -/
theorem closing?_eq_cancelled
    (h : publisher.closing? timer replies now none tie' n = none)
    {settled : Except DeliveryError Ack × Nat}
    (closes : publisher.closing? timer replies now (some event) tie n = some settled) :
    settled = (.error (.cancelled (n + 1)),
        max (publisher.knownAt timer replies now n) event.time) ∧
      event.time ≤ publisher.startAt timer replies now (n + 1) := by
  obtain ⟨⟨error, outcome⟩, delay, decision⟩ := failed_of_closing?_eq_none h
  rw [closing?_of_retry outcome decision] at closes
  split at closes
  next time stops =>
    obtain ⟨rfl, le⟩ := race_eq_stop stops
    have := publisher.knownAt_le_startAt_succ timer replies now n
    exact ⟨(Option.some.inj closes).symm, by omega⟩
  next => cases closes

/-- An attempt that follows another has started before the shutdown, or with it. -/
theorem startAt_succ_le_of_goes_on (positive : 0 < publisher.policy.delay.nanos)
    (goes_on : publisher.closing? timer replies now (some event) tie n = none) :
    publisher.startAt timer replies now (n + 1) ≤ event.time := by
  have lt := knownAt_lt_startAt_succ positive goes_on
  obtain ⟨⟨error, outcome⟩, delay, decision⟩ := failed_of_closing?_eq_none goes_on
  rw [closing?_of_retry outcome decision] at goes_on
  split at goes_on
  next => cases goes_on
  next rings =>
    have := ring_le_of_race_timer rings
    omega

end Compare

/-! ## Whole deliveries -/

section Whole

variable {event : Event} {tie tie' : Nat → Branch} {body : String} {last ends : Nat}
variable {whole cut : Delivery}
variable (course : Course publisher timer replies now none tie' body 0 ends whole)
variable (shorter : Course publisher timer replies now (some event) tie body 0 last cut)

include course shorter

theorem Course.last_le : last ≤ ends := by
  rcases Nat.lt_or_ge ends last with beyond | le
  · have goes_on := shorter.goes_on ends (Nat.zero_le _) beyond
    rw [closing?_of_closing?_none course.closes] at goes_on
    cases goes_on
  · exact le

theorem Course.attempts_eq_take : cut.attempts = whole.attempts.take (last + 1) := by
  have le := course.last_le shorter
  rw [shorter.attempts, course.attempts, ← List.map_take,
    List.take_range'_of_length_ge (by omega), Nat.sub_zero]

theorem Course.last_eq_iff : last = ends ↔ cut.attempts = whole.attempts := by
  constructor
  · rintro rfl
    rw [shorter.attempts, course.attempts]
  · intro same
    have length := shorter.length_attempts
    rw [same, course.length_attempts] at length
    omega

/-- Where both deliveries make the same attempts they come to the same at the same time. -/
theorem Course.same_of_last_eq (same : last = ends) :
    cut.result = whole.result ∧ cut.finish = whole.finish := by
  have closes := shorter.closes
  rw [same, closing?_of_closing?_none course.closes, Option.some.injEq, Prod.mk.injEq] at closes
  exact ⟨closes.1.symm, closes.2.symm⟩

omit shorter in
/-- Without a shutdown, a delivery ends when the outcome of its last attempt is known. -/
theorem Course.finish_eq_knownAt :
    whole.finish = publisher.knownAt timer replies now ends := by
  rcases finish_of_closing? course.closes with ⟨-, finish⟩ | ⟨-, stop, none_eq, -⟩
  · exact finish
  · cases none_eq

/-- Where the shutdown leaves attempts out it cancels the delivery. -/
theorem Course.cancelled_of_last_ne (differ : last ≠ ends) :
    cut.result = .error (.cancelled (last + 1)) ∧
      cut.finish = max (publisher.knownAt timer replies now last) event.time ∧
      event.time ≤ publisher.startAt timer replies now (last + 1) := by
  have le := course.last_le shorter
  have goes_on := course.goes_on last (Nat.zero_le _) (by omega)
  obtain ⟨settled, before⟩ := closing?_eq_cancelled goes_on shorter.closes
  rw [Prod.mk.injEq] at settled
  exact ⟨settled.1, settled.2, before⟩

end Whole

/-- Every attempt but the first starts by the time of the shutdown. -/
theorem Course.start_le {event : Event} {tie : Nat → Branch} {body : String} {last : Nat}
    {cut : Delivery} (positive : 0 < publisher.policy.delay.nanos)
    (course : Course publisher timer replies now (some event) tie body 0 last cut) {n : Nat}
    (pos : 0 < n) (le : n ≤ last) : publisher.startAt timer replies now n ≤ event.time := by
  obtain ⟨n, rfl⟩ := Nat.exists_eq_add_one.2 pos
  exact startAt_succ_le_of_goes_on positive (course.goes_on n (Nat.zero_le _) le)

/-! ## Where the shutdown falls -/

section Phases

variable {event : Event} {tie : Nat → Branch} {body : String} {last : Nat} {delivery : Delivery}
variable (course : Course publisher timer replies now (some event) tie body 0 last delivery)

include course

theorem Course.finish_cases :
    (delivery.finish = publisher.knownAt timer replies now last ∧
        ∀ failures, delivery.result ≠ .error (.cancelled failures)) ∨
      delivery.finish = max (publisher.knownAt timer replies now last) event.time ∧
        delivery.result = .error (.cancelled (last + 1)) := by
  rcases finish_of_closing? course.closes with ⟨other, finish⟩ | ⟨result, stop, eq, finish⟩
  · exact .inl ⟨finish, other⟩
  · cases eq
    exact .inr ⟨finish, result⟩

variable (positive : 0 < publisher.policy.delay.nanos)

include positive

/-- An attempt whose outcome comes after the shutdown is the last one, and the delivery ends with
it. -/
theorem Course.last_of_unknown {n : Nat} (le : n ≤ last)
    (unknown : event.time < publisher.knownAt timer replies now n) :
    last = n ∧ delivery.finish = publisher.knownAt timer replies now n := by
  rcases Nat.lt_or_eq_of_le le with lt | rfl
  · have next := course.start_le positive (n := n + 1) (Nat.succ_pos n) lt
    have := publisher.knownAt_le_startAt_succ timer replies now n
    omega
  · refine ⟨rfl, ?_⟩
    rcases course.finish_cases with ⟨finish, -⟩ | ⟨finish, -⟩ <;> omega

/-- Where no attempt is under way, the delivery is over by the shutdown or ends with it. -/
theorem Course.finish_of_quiet (early : now ≤ event.time)
    (quiet : ∀ n ≤ last, publisher.startAt timer replies now n ≤ event.time →
      publisher.knownAt timer replies now n ≤ event.time) :
    delivery.finish ≤ event.time ∧
      ∀ failures, delivery.result = .error (.cancelled failures) →
        delivery.finish = event.time := by
  have known_le : publisher.knownAt timer replies now last ≤ event.time := by
    refine quiet last (Nat.le_refl _) ?_
    rcases Nat.eq_zero_or_pos last with rfl | pos
    · exact early
    · exact course.start_le positive pos (Nat.le_refl _)
  rcases course.finish_cases with ⟨finish, other⟩ | ⟨finish, -⟩
  · exact ⟨by omega, fun failures cancelled => absurd cancelled (other failures)⟩
  · exact ⟨by omega, fun _ _ => by omega⟩

end Phases

/-! ## What a shutdown leaves of a delivery -/

/-- When the outcome of the last attempt of a delivery is known. -/
def lastKnown (replies : Replies) (delivery : Delivery) : Option Nat :=
  delivery.attempts.getLast?.map fun last =>
    last.start + (replies (delivery.attempts.length - 1)).latency

theorem Course.lastKnown_eq {event : Option Event} {tie : Nat → Branch} {body : String} {last : Nat}
    {delivery : Delivery}
    (course : Course publisher timer replies now event tie body 0 last delivery) :
    lastKnown replies delivery = some (publisher.knownAt timer replies now last) := by
  rw [lastKnown, course.getLast?_attempts, course.length_attempts]
  rfl

/-- `cut` is what a shutdown leaves of the delivery `whole`. -/
structure CutShort (replies : Replies) (maxAttempts : Nat) (event : Event) (whole cut : Delivery) :
    Prop where
  /-- No other attempts are made, and none at another time. -/
  attempts_prefix : cut.attempts <+: whole.attempts
  /-- All that start by the time of the shutdown are made. -/
  kept : ∀ attempt ∈ whole.attempts, attempt.start ≤ event.time → attempt ∈ cut.attempts
  /-- None but the first starts later. -/
  later_before : ∃ first later, cut.attempts = first :: later ∧
    ∀ attempt ∈ later, attempt.start < event.time
  /-- Where no attempt is left out the delivery comes to the same, and its last attempt is waited
  for. -/
  completed : cut.attempts = whole.attempts →
    cut.result = whole.result ∧ cut.finish = whole.finish ∧
      lastKnown replies cut = some cut.finish
  /-- Where some are left out it is cancelled, by the shutdown or after the last attempt. -/
  cancelled : cut.attempts ≠ whole.attempts →
    cut.result = .error (.cancelled cut.attempts.length) ∧
      ∃ known, lastKnown replies cut = some known ∧ cut.finish = max event.time known
  /-- An acceptance counts whenever it comes. -/
  accepted : ∀ receipt, (replies (cut.attempts.length - 1)).outcome = .ok receipt →
    cut.result = .ok ⟨cut.attempts.length, receipt.status, newRecord? receipt.body⟩
  /-- The failure of the last attempt that is allowed is never a cancellation. -/
  exhausted : ∀ error, (replies (cut.attempts.length - 1)).outcome = .error error →
    cut.attempts.length = maxAttempts →
    cut.result = .error (.unreachable cut.attempts.length error.message)

/-- With a shutdown a delivery makes the attempts that it makes without one, as far as they start
before the shutdown, and the first one.  An attempt under way then is waited for: if it settles the
delivery it counts, and otherwise the delivery is cancelled. -/
theorem publishUntil_cutShort (publisher : Publisher) (timer : Timer) (report : Report)
    (replies : Replies) (event : Event) (tie : Nat → Branch) (now : Nat)
    (positive : 0 < publisher.policy.delay.nanos)
    (apart : ∀ attempt ∈ (publisher.publish timer report replies now).attempts.tail,
      attempt.start ≠ event.time) :
    CutShort replies publisher.policy.maxAttempts.toNat event
      (publisher.publish timer report replies now)
      (publisher.publishUntil timer report replies (some event) tie now) := by
  obtain ⟨ends, course⟩ :=
    exists_course_publish publisher timer report replies now
  obtain ⟨last, shorter⟩ :=
    exists_course_publishUntil publisher timer report replies (some event) tie now
  generalize publisher.publish timer report replies now = whole at *
  generalize publisher.publishUntil timer report replies (some event) tie now = cut at *
  have le := course.last_le shorter
  have length := shorter.length_attempts
  -- an attempt but the first, of either delivery, is one of those that start apart
  have apart_of_pos : ∀ n, 0 < n → n ≤ ends →
      publisher.startAt timer replies now n ≠ event.time := by
    intro n pos le_ends
    refine apart (publisher.attemptAt timer replies now report.wire n) ?_
    rw [course.attempts_eq_cons, List.tail_cons]
    exact List.mem_map_of_mem (List.mem_range'_1.2 ⟨pos, by omega⟩)
  constructor
  case attempts_prefix =>
    rw [course.attempts_eq_take shorter]
    exact List.take_prefix _ _
  case kept =>
    intro attempt mem early
    obtain ⟨n, le_ends, rfl⟩ := course.mem_attempts.1 mem
    rcases Nat.lt_or_ge last n with left_out | made
    · obtain ⟨-, -, before⟩ := course.cancelled_of_last_ne shorter (by omega)
      have later := publisher.startAt_mono timer replies now (show last + 1 ≤ n from left_out)
      exact absurd (Nat.le_antisymm early (Nat.le_trans before later))
        (apart_of_pos n (by omega) le_ends)
    · exact shorter.mem_attempts.2 ⟨n, made, rfl⟩
  case later_before =>
    refine ⟨_, _, shorter.attempts_eq_cons, ?_⟩
    intro attempt mem
    obtain ⟨n, within, rfl⟩ := List.mem_map.1 mem
    rw [List.mem_range'_1] at within
    exact Nat.lt_of_le_of_ne (shorter.start_le positive (n := n) (by omega) (by omega))
      (apart_of_pos n (by omega) (by omega))
  case completed =>
    intro same
    have together := (course.last_eq_iff shorter).2 same
    obtain ⟨result, finish⟩ := course.same_of_last_eq shorter together
    refine ⟨result, finish, ?_⟩
    rw [shorter.lastKnown_eq, finish, course.finish_eq_knownAt, together]
  case cancelled =>
    intro differ
    obtain ⟨result, finish, -⟩ := course.cancelled_of_last_ne shorter
      (fun together => differ ((course.last_eq_iff shorter).1 together))
    rw [length]
    exact ⟨result, _, shorter.lastKnown_eq, finish.trans (Nat.max_comm _ _)⟩
  case accepted =>
    intro receipt outcome
    rw [length, Nat.add_sub_cancel] at outcome
    have closes := shorter.closes
    rw [closing?_of_ok outcome, Option.some.injEq, Prod.mk.injEq] at closes
    rw [length]
    exact closes.1.symm
  case exhausted =>
    intro error outcome all
    rw [length, Nat.add_sub_cancel] at outcome
    rw [length] at all ⊢
    have closes := shorter.closes
    cases decision : publisher.policy.afterFailure (last + 1) with
    | retry delay =>
        have := RetryPolicy.lt_maxAttempts_of_retry decision
        omega
    | exhausted =>
        rw [closing?_of_exhausted outcome decision, Option.some.injEq, Prod.mk.injEq] at closes
        exact closes.1.symm

/-- Of three attempts, at 0, 7 and 14, a shutdown in the wait before the third leaves two. -/
theorem publishUntil_cutShort_in_second_wait :
    let publisher : Publisher := ⟨"http://127.0.0.1:5000/discovery", .fixed 3 (.ofMillis 5)⟩
    let report : Report := ⟨[], ⟨"", ""⟩, .empty⟩
    let whole := publisher.publish .exact report (.refuseAll 2) 0
    0 < publisher.policy.delay.nanos ∧ (∀ attempt ∈ whole.attempts.tail, attempt.start ≠ 10) ∧
      CutShort (.refuseAll 2) publisher.policy.maxAttempts.toNat ⟨10, .requested⟩ whole
        (publisher.publishUntil .exact report (.refuseAll 2) (some ⟨10, .requested⟩)
          (fun _ => .stop) 0) := by
  intro publisher report whole
  have positive : 0 < publisher.policy.delay.nanos := by decide
  have apart : ∀ attempt ∈ whole.attempts.tail, attempt.start ≠ 10 := by
    obtain ⟨last, course⟩ := exists_course_publish publisher .exact report (.refuseAll 2) 0
    have starts : ∀ n < 3, 0 < n → publisher.startAt .exact (.refuseAll 2) 0 n ≠ 10 := by
      decide +kernel
    have bound : last < 3 := course.last_lt_maxAttempts
    intro attempt mem
    rw [course.attempts_eq_cons, List.tail_cons] at mem
    obtain ⟨n, within, rfl⟩ := List.mem_map.1 mem
    rw [List.mem_range'_1] at within
    exact starts n (by omega) (by omega)
  exact ⟨positive, apart, publishUntil_cutShort publisher .exact report (.refuseAll 2)
    ⟨10, .requested⟩ (fun _ => .stop) 0 positive apart⟩

end NodeInventory.Publisher
