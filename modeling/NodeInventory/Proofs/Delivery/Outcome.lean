import NodeInventory.Proofs.Delivery.Log
import NodeInventory.Proofs.Delivery.NewRecord

/-!
# What a delivery comes to

Without a shutdown a delivery ends with the first acceptance, or with the last attempt that the
policy allows, and says what the receipt or the last error says.
-/

namespace NodeInventory

/-- How an error of a submission reads. -/
inductive Transport.Error.Reads : Transport.Error → String → Prop
  | connect (reason : String) : Reads (.connect reason) ("Connection failed: " ++ reason)
  | timeout (reason : String) : Reads (.timeout reason) ("Request timed out: " ++ reason)
  | status (code : Nat) (body : String) :
      Reads (.status code body) ("Unexpected status " ++ toString code ++ ": " ++ body)
  | request (reason : String) : Reads (.request reason) ("Request failed: " ++ reason)

theorem Transport.Error.reads_message (error : Transport.Error) : error.Reads error.message := by
  cases error with
  | connect reason => exact .connect reason
  | timeout reason => exact .timeout reason
  | status code body => exact .status code body
  | request reason => exact .request reason

namespace Publisher

open Shutdown Transport

variable {publisher : Publisher} {timer : Timer} {replies : Replies} {now : Nat}

/-! ## The last attempt -/

/-- Without a shutdown, only an acceptance or the bound ends a delivery. -/
theorem closing?_none_eq_none_iff {tie : Nat → Branch} {n : Nat} :
    publisher.closing? timer replies now none tie n = none ↔
      (∃ error, (replies n).outcome = .error error) ∧
        n + 1 < publisher.policy.maxAttempts.toNat := by
  constructor
  · intro h
    exact ⟨(failed_of_closing?_eq_none h).1, lt_maxAttempts_of_closing?_eq_none h⟩
  · rintro ⟨⟨error, outcome⟩, lt⟩
    cases decision : publisher.policy.afterFailure (n + 1) with
    | exhausted =>
        have := RetryPolicy.maxAttempts_le_of_exhausted decision
        omega
    | retry delay => rw [closing?_of_retry outcome decision, race_none]

section Last

variable {tie : Nat → Branch} {body : String} {last : Nat} {delivery : Delivery}

theorem Course.last_eq_of_accepted
    (course : Course publisher timer replies now none tie body 0 last delivery)
    {k : Nat} {receipt : Receipt} (lt : k < publisher.policy.maxAttempts.toNat)
    (accepted : (replies k).outcome = .ok receipt)
    (failed : ∀ n < k, ∃ error, (replies n).outcome = .error error) : last = k := by
  rcases Nat.lt_trichotomy last k with before | same | after
  · have closes := course.closes
    rw [closing?_none_eq_none_iff.2 ⟨failed last before, Nat.lt_of_le_of_lt before lt⟩] at closes
    cases closes
  · exact same
  · obtain ⟨error, outcome⟩ := course.failed after
    rw [accepted] at outcome
    cases outcome

theorem Course.last_eq_of_all_failed
    (course : Course publisher timer replies now none tie body 0 last delivery)
    (failed : ∀ n < publisher.policy.maxAttempts.toNat, ∃ error,
      (replies n).outcome = .error error) :
    last = publisher.policy.maxAttempts.toNat - 1 := by
  have lt := course.last_lt_maxAttempts
  rcases Nat.lt_or_ge (last + 1) publisher.policy.maxAttempts.toNat with more | done
  · have closes := course.closes
    rw [closing?_none_eq_none_iff.2 ⟨failed last lt, more⟩] at closes
    cases closes
  · omega

/-- An acceptance is the last outcome of a delivery and makes its result. -/
theorem Course.result_of_accepted {event : Option Event}
    (course : Course publisher timer replies now event tie body 0 last delivery)
    {k : Nat} {receipt : Receipt} (made : k < delivery.attempts.length)
    (accepted : (replies k).outcome = .ok receipt) :
    k = last ∧ delivery.result = .ok ⟨k + 1, receipt.status, newRecord? receipt.body⟩ := by
  rw [course.length_attempts] at made
  rcases Nat.lt_or_eq_of_le (Nat.le_of_lt_succ made) with before | rfl
  · obtain ⟨error, outcome⟩ := course.failed before
    rw [accepted] at outcome
    cases outcome
  · have closes := course.closes
    rw [closing?_of_ok accepted, Option.some.injEq, Prod.mk.injEq] at closes
    exact ⟨rfl, closes.1.symm⟩

/-- A failure of the last attempt that the policy allows is the one that is reported. -/
theorem Course.result_of_spent {event : Option Event}
    (course : Course publisher timer replies now event tie body 0 last delivery)
    {error : Transport.Error} (spent : last + 1 = publisher.policy.maxAttempts.toNat)
    (outcome : (replies last).outcome = .error error) :
    delivery.result = .error (.unreachable (last + 1) error.message) := by
  cases decision : publisher.policy.afterFailure (last + 1) with
  | retry delay =>
      have := RetryPolicy.lt_maxAttempts_of_retry decision
      omega
  | exhausted =>
      have closes := course.closes
      rw [closing?_of_exhausted outcome decision, Option.some.injEq, Prod.mk.injEq] at closes
      exact closes.1.symm

/-- Without a shutdown the first acceptance ends a delivery. -/
theorem Course.ends_accepted
    (course : Course publisher timer replies now none tie body 0 last delivery)
    {k : Nat} {receipt : Receipt} (lt : k < publisher.policy.maxAttempts.toNat)
    (accepted : (replies k).outcome = .ok receipt)
    (failed : ∀ n < k, ∃ error, (replies n).outcome = .error error) :
    delivery.attempts.length = k + 1 ∧
      delivery.result = .ok ⟨k + 1, receipt.status, newRecord? receipt.body⟩ := by
  obtain rfl : last = k := course.last_eq_of_accepted lt accepted failed
  have made : last < delivery.attempts.length := by
    rw [course.length_attempts]
    exact Nat.lt_succ_self last
  exact ⟨course.length_attempts, (course.result_of_accepted made accepted).2⟩

/-- Without an acceptance the last attempt that the policy allows ends a delivery. -/
theorem Course.ends_spent
    (course : Course publisher timer replies now none tie body 0 last delivery) {bound : Nat}
    (allowed : publisher.policy.maxAttempts.toNat = bound)
    (failed : ∀ n < bound, ∃ error, (replies n).outcome = .error error) {error : Transport.Error}
    (outcome : (replies (bound - 1)).outcome = .error error) :
    delivery.attempts.length = bound ∧
      delivery.result = .error (.unreachable bound error.message) := by
  subst allowed
  have ends : last = publisher.policy.maxAttempts.toNat - 1 := course.last_eq_of_all_failed failed
  have spent : last + 1 = publisher.policy.maxAttempts.toNat := by
    have := course.last_lt_maxAttempts
    omega
  rw [← ends] at outcome
  rw [← spent]
  exact ⟨course.length_attempts, course.result_of_spent spent outcome⟩

end Last

/-! ## The bodies of receipts -/

/-- Replies that differ in nothing but the bodies of receipts. -/
def SameButBodies (replies replies' : Replies) : Prop :=
  ∀ n, (replies' n).latency = (replies n).latency ∧
    (replies' n).outcome.map Receipt.status = (replies n).outcome.map Receipt.status

/-- An acknowledgement without what the service says of the record. -/
def withoutRecord (ack : Ack) : Ack := { ack with newRecord := none }

section Bodies

variable {replies' : Replies}

theorem startAt_of_sameButBodies (same : SameButBodies replies replies') (n : Nat) :
    publisher.startAt timer replies' now n = publisher.startAt timer replies now n := by
  induction n with
  | zero => rfl
  | succ n ih => simp only [startAt, ih, (same n).1]

/-- What a delivery comes to, without what the service says of the record. -/
def settledWithoutRecord (settled : Except DeliveryError Ack × Nat) :
    Except DeliveryError Ack × Nat :=
  (settled.1.map withoutRecord, settled.2)

theorem closing?_of_sameButBodies (same : SameButBodies replies replies') {event : Option Event}
    {tie : Nat → Branch} (n : Nat) :
    (publisher.closing? timer replies' now event tie n).map settledWithoutRecord =
      (publisher.closing? timer replies now event tie n).map settledWithoutRecord := by
  have starts : ∀ n,
      publisher.startAt timer replies' now n = publisher.startAt timer replies now n :=
    startAt_of_sameButBodies same
  have known : publisher.knownAt timer replies' now n = publisher.knownAt timer replies now n := by
    simp only [knownAt, starts, (same n).1]
  have outcomes := (same n).2
  cases outcome : (replies n).outcome with
  | ok receipt =>
      cases outcome' : (replies' n).outcome with
      | error error => rw [outcome, outcome'] at outcomes; cases outcomes
      | ok receipt' =>
          rw [outcome, outcome'] at outcomes
          have status : receipt'.status = receipt.status := Except.ok.inj outcomes
          rw [closing?_of_ok outcome, closing?_of_ok outcome', known]
          simp only [Option.map_some, settledWithoutRecord, Except.map, withoutRecord, status]
  | error error =>
      cases outcome' : (replies' n).outcome with
      | ok receipt' => rw [outcome, outcome'] at outcomes; cases outcomes
      | error error' =>
          rw [outcome, outcome'] at outcomes
          cases Except.error.inj outcomes
          cases decision : publisher.policy.afterFailure (n + 1) with
          | exhausted =>
              rw [closing?_of_exhausted outcome decision, closing?_of_exhausted outcome' decision,
                known]
          | retry delay =>
              rw [closing?_of_retry outcome decision, closing?_of_retry outcome' decision, known,
                starts]

theorem Course.eq_of_sameButBodies (same : SameButBodies replies replies') {event : Option Event}
    {tie : Nat → Branch} {body : String} {last last' : Nat} {delivery delivery' : Delivery}
    (course : Course publisher timer replies now event tie body 0 last delivery)
    (course' : Course publisher timer replies' now event tie body 0 last' delivery') :
    delivery'.attempts = delivery.attempts ∧ delivery'.finish = delivery.finish ∧
      delivery'.result.map withoutRecord = delivery.result.map withoutRecord := by
  have closings : ∀ n,
      (publisher.closing? timer replies' now event tie n).map settledWithoutRecord =
        (publisher.closing? timer replies now event tie n).map settledWithoutRecord :=
    closing?_of_sameButBodies same
  have ends : last' = last := by
    rcases Nat.lt_trichotomy last' last with before | same | after
    · have := closings last'
      rw [course'.closes, course.goes_on last' (Nat.zero_le _) before] at this
      cases this
    · exact same
    · have := closings last
      rw [course.closes, course'.goes_on last (Nat.zero_le _) after] at this
      cases this
  subst ends
  have settled := closings last'
  rw [course.closes, course'.closes] at settled
  simp only [Option.map_some, settledWithoutRecord, Option.some.injEq, Prod.mk.injEq] at settled
  refine ⟨?_, settled.2, settled.1⟩
  rw [course.attempts, course'.attempts]
  refine List.map_congr_left fun n _ => ?_
  rw [attemptAt, attemptAt, startAt_of_sameButBodies same]

end Bodies

/-! ## The outcome -/

/-- A delivery ends with the first acceptance, or with the last attempt that the bound allows.  All
attempts are alike, the body of a receipt decides nothing but `newRecord`, and the counter of 32
bits counts the attempts. -/
theorem publish_outcome (endpoint : String) (maxAttempts : UInt32) (delay : Duration)
    (factor : Binary64) (timer : Timer) (report : Report) (replies : Replies) (now : Nat) :
    let publisher : Publisher := ⟨endpoint, .of maxAttempts delay factor⟩
    let bound := max 1 maxAttempts.toNat
    let delivery := publisher.publish timer report replies now
    (∀ k receipt, k < bound → (replies k).outcome = .ok receipt →
      (∀ n < k, ∃ error, (replies n).outcome = .error error) →
        delivery.attempts.length = k + 1 ∧
        ∃ said, TellsOfRecord receipt.body said ∧
          delivery.result = .ok ⟨k + 1, receipt.status, said⟩) ∧
    ((∀ n < bound, ∃ error, (replies n).outcome = .error error) →
      delivery.attempts.length = bound ∧
      ∃ error text, (replies (bound - 1)).outcome = .error error ∧ error.Reads text ∧
        delivery.result = .error (.unreachable bound text)) ∧
    (∀ attempt ∈ delivery.attempts, attempt.url = endpoint ∧ attempt.body = report.wire) ∧
    (∀ replies', SameButBodies replies replies' →
      let delivery' := publisher.publish timer report replies' now
      delivery'.attempts = delivery.attempts ∧ delivery'.finish = delivery.finish ∧
        delivery'.result.map withoutRecord = delivery.result.map withoutRecord) ∧
    ∃ readings,
      (publisher.deliverBy timer (noteCounter replies) report.wire none (fun _ => .timer)
        publisher.policy.noFailures now).run [] = (delivery, readings) ∧
      readings.map UInt32.toNat = List.range' 1 delivery.attempts.length ∧
      ∀ reading ∈ readings, reading.toNat ≤ bound := by
  intro publisher bound delivery
  have max_eq : publisher.policy.maxAttempts.toNat = bound :=
    RetryPolicy.of_maxAttempts_toNat maxAttempts delay factor
  obtain ⟨last, course⟩ :=
    exists_course_publish publisher timer report replies now
  refine ⟨?_, ?_, ?_, ?_, ?_⟩
  · intro k receipt lt accepted failed
    obtain ⟨made, result⟩ := course.ends_accepted (max_eq ▸ lt) accepted failed
    exact ⟨made, _, tellsOfRecord_newRecord? receipt.body, result⟩
  · intro failed
    obtain ⟨error, outcome⟩ := failed (bound - 1) (by omega)
    obtain ⟨made, result⟩ := course.ends_spent max_eq failed outcome
    exact ⟨made, error, _, outcome, error.reads_message, result⟩
  · intro attempt mem
    obtain ⟨n, -, rfl⟩ := course.mem_attempts.1 mem
    exact ⟨rfl, rfl⟩
  · intro replies' same
    obtain ⟨last', course'⟩ :=
      exists_course_publish publisher timer report replies' now
    exact course.eq_of_sameButBodies same course'
  · rw [← max_eq]
    exact deliverBy_noteCounter none (fun _ => .timer) report.wire

/-- A service that is busy takes the second submission, of a new node; where two are all that is
allowed and none is taken, the last one is reported. -/
theorem publish_outcome_of_busy_service :
    let busy : Reply := ⟨.error (.status 503 "busy"), 40⟩
    let taken : Reply := ⟨.ok ⟨201, "\x7b\"new-discovery\":true\x7d"⟩, 30⟩
    let late : Reply := ⟨.error (.timeout "deadline has elapsed"), 10000⟩
    let publisher : Publisher := ⟨"http://127.0.0.1:5000/discovery", .of 2 (.ofMillis 5) 2⟩
    let report : Report := ⟨[], ⟨"52:54:00:00:00:01", "4c4c4544"⟩, .empty⟩
    (publisher.publish .exact report (.ofList [busy, taken] late) 0).result =
        .ok ⟨2, 201, some true⟩ ∧
      (publisher.publish .exact report (.ofList [late, busy] taken) 0).result =
        .error (.unreachable 2 "Unexpected status 503: busy") ∧
      (publisher.publish .exact report (.ofList [busy, late] taken) 0).result =
        .error (.unreachable 2 "Request timed out: deadline has elapsed") := by
  intro busy taken late publisher report
  have outcome := publish_outcome publisher.endpoint 2 (.ofMillis 5) 2 .exact report
  refine ⟨?accepted, ?status, ?timeout⟩
  case accepted =>
    obtain ⟨acknowledged, -⟩ := outcome (.ofList [busy, taken] late) 0
    obtain ⟨-, said, told, result⟩ := acknowledged 1 _ (by decide) rfl
      fun n lt => ⟨.status 503 "busy", by rw [Nat.lt_one_iff.1 lt]; rfl⟩
    obtain rfl : said = some true := told.eq_some (by decide +kernel)
    exact result
  case status =>
    obtain ⟨-, unreachable, -⟩ := outcome (.ofList [late, busy] taken) 0
    obtain ⟨-, _, _, ⟨⟩, ⟨⟩, result⟩ := unreachable fun
      | 0, _ => ⟨_, rfl⟩
      | 1, _ => ⟨_, rfl⟩
    exact result
  case timeout =>
    obtain ⟨-, unreachable, -⟩ := outcome (.ofList [busy, late] taken) 0
    obtain ⟨-, _, _, ⟨⟩, ⟨⟩, result⟩ := unreachable fun
      | 0, _ => ⟨_, rfl⟩
      | 1, _ => ⟨_, rfl⟩
    exact result

end Publisher

end NodeInventory
