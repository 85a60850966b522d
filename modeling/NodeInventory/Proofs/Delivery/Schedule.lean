import NodeInventory.Delivery

/-!
# The schedule of a delivery

As long as attempts fail and no shutdown comes, their times are fixed by the replies and the
policy: `startAt` and `knownAt`.  A shutdown or an acceptance only cuts this schedule short, at the
first attempt that `closing?` says something of.  `exists_course_deliverFrom` describes every
delivery that way, and what is said of deliveries elsewhere follows from it.
-/

namespace NodeInventory.Publisher

open Shutdown Transport

/-! ## The times of the schedule -/

section Times

variable (publisher : Publisher) (timer : Timer) (replies : Replies) (now : Nat)

/-- Milliseconds from the outcome of the last attempt to the start of the next, after so many
failures. -/
def pause (failures : Nat) : Nat :=
  match publisher.policy.afterFailure failures with
  | .exhausted => 0
  | .retry delay => timer.wait delay

/-- When the attempt with a number starts, if all before it fail and no shutdown comes. -/
def startAt : Nat → Nat
  | 0 => now
  | n + 1 => startAt n + (replies n).latency + publisher.pause timer (n + 1)

/-- When the outcome of the attempt with a number is known. -/
def knownAt (n : Nat) : Nat := publisher.startAt timer replies now n + (replies n).latency

def attemptAt (body : String) (n : Nat) : Attempt :=
  ⟨publisher.startAt timer replies now n, publisher.endpoint, body⟩

/-- What a delivery comes to with the attempt of a number, and when, unless it goes on. -/
def closing? (event : Option Event) (tie : Nat → Branch) (n : Nat) :
    Option (Except DeliveryError Ack × Nat) :=
  let known := publisher.knownAt timer replies now n
  match (replies n).outcome with
  | .ok receipt => some (.ok ⟨n + 1, receipt.status, newRecord? receipt.body⟩, known)
  | .error error =>
      match publisher.policy.afterFailure (n + 1) with
      | .exhausted => some (.error (.unreachable (n + 1) error.message), known)
      | .retry delay =>
          match race (tie (n + 1)) known (known + timer.wait delay) event with
          | (.stop, time) => some (.error (.cancelled (n + 1)), time)
          | (.timer, _) => none

theorem startAt_succ (n : Nat) :
    publisher.startAt timer replies now (n + 1) =
      publisher.knownAt timer replies now n + publisher.pause timer (n + 1) := rfl

theorem knownAt_le_startAt_succ (n : Nat) :
    publisher.knownAt timer replies now n ≤ publisher.startAt timer replies now (n + 1) :=
  Nat.le_add_right _ _

theorem startAt_le_knownAt (n : Nat) :
    publisher.startAt timer replies now n ≤ publisher.knownAt timer replies now n :=
  Nat.le_add_right _ _

theorem startAt_mono {m n : Nat} (h : m ≤ n) :
    publisher.startAt timer replies now m ≤ publisher.startAt timer replies now n := by
  induction h with
  | refl => exact Nat.le_refl _
  | step _ ih =>
      exact Nat.le_trans ih
        (Nat.le_trans (publisher.startAt_le_knownAt timer replies now _)
          (publisher.knownAt_le_startAt_succ timer replies now _))

end Times

variable {publisher : Publisher} {timer : Timer} {replies : Replies} {now : Nat}

theorem pause_of_retry {failures : Nat} {delay : Duration}
    (h : publisher.policy.afterFailure failures = .retry delay) :
    publisher.pause timer failures = timer.wait delay := by
  simp only [pause, h]

/-! ## Where the schedule is cut short -/

section Step

variable {event : Option Event} {tie : Nat → Branch} {n : Nat}

theorem closing?_of_ok {receipt : Receipt} (h : (replies n).outcome = .ok receipt) :
    publisher.closing? timer replies now event tie n =
      some (.ok ⟨n + 1, receipt.status, newRecord? receipt.body⟩,
        publisher.knownAt timer replies now n) := by
  simp only [closing?, h]

theorem closing?_of_exhausted {error : Transport.Error} (h : (replies n).outcome = .error error)
    (done : publisher.policy.afterFailure (n + 1) = .exhausted) :
    publisher.closing? timer replies now event tie n =
      some (.error (.unreachable (n + 1) error.message),
        publisher.knownAt timer replies now n) := by
  simp only [closing?, h, done]

/-- After a failure that is not the last one allowed, the race decides. -/
theorem closing?_of_retry {error : Transport.Error} {delay : Duration}
    (h : (replies n).outcome = .error error)
    (again : publisher.policy.afterFailure (n + 1) = .retry delay) :
    publisher.closing? timer replies now event tie n =
      match race (tie (n + 1)) (publisher.knownAt timer replies now n)
        (publisher.startAt timer replies now (n + 1)) event with
      | (.stop, time) => some (.error (.cancelled (n + 1)), time)
      | (.timer, _) => none := by
  simp only [closing?, h, again, startAt_succ, pause_of_retry again]

/-- A delivery ends when the outcome of its last attempt is known, or is cancelled by the shutdown
behind it. -/
theorem finish_of_closing? {result : Except DeliveryError Ack} {finish : Nat}
    (h : publisher.closing? timer replies now event tie n = some (result, finish)) :
    ((∀ failures, result ≠ .error (.cancelled failures)) ∧
        finish = publisher.knownAt timer replies now n) ∨
      result = .error (.cancelled (n + 1)) ∧
        ∃ stop, event = some stop ∧
          finish = max (publisher.knownAt timer replies now n) stop.time := by
  cases outcome : (replies n).outcome with
  | ok receipt =>
      rw [closing?_of_ok outcome] at h
      cases h
      exact .inl ⟨fun _ eq => (by cases eq), rfl⟩
  | error error =>
      cases decision : publisher.policy.afterFailure (n + 1) with
      | exhausted =>
          rw [closing?_of_exhausted outcome decision] at h
          cases h
          exact .inl ⟨fun _ eq => (by cases eq), rfl⟩
      | retry delay =>
          rw [closing?_of_retry outcome decision] at h
          split at h
          next settled =>
            cases h
            cases event with
            | none => cases settled
            | some stop => exact .inr ⟨rfl, stop, rfl, (race_eq_stop settled).1⟩
          next => cases h

/-- A delivery goes on after an attempt only if it failed and another one is allowed. -/
theorem failed_of_closing?_eq_none
    (h : publisher.closing? timer replies now event tie n = none) :
    (∃ error, (replies n).outcome = .error error) ∧
      ∃ delay, publisher.policy.afterFailure (n + 1) = .retry delay := by
  cases outcome : (replies n).outcome with
  | ok receipt => rw [closing?_of_ok outcome] at h; cases h
  | error error =>
      cases decision : publisher.policy.afterFailure (n + 1) with
      | exhausted => rw [closing?_of_exhausted outcome decision] at h; cases h
      | retry delay => exact ⟨⟨error, rfl⟩, delay, rfl⟩

theorem lt_maxAttempts_of_closing?_eq_none
    (h : publisher.closing? timer replies now event tie n = none) :
    n + 1 < publisher.policy.maxAttempts.toNat := by
  obtain ⟨-, delay, again⟩ := failed_of_closing?_eq_none h
  exact RetryPolicy.lt_maxAttempts_of_retry again

end Step

/-! ## One turn of the loop -/

section Turn

variable {event : Option Event} {tie : Nat → Branch} {failures : publisher.policy.Survivable}

/-- What follows the attempt of the schedule after so many failures. -/
def sequelAt (publisher : Publisher) (timer : Timer) (replies : Replies) (now : Nat)
    (event : Option Event) (tie : Nat → Branch) (failures : publisher.policy.Survivable) :
    Sequel publisher.policy (failures + 1) :=
  let n := failures.val.toNat
  publisher.sequel timer event tie _ (publisher.knownAt timer replies now n) (replies n).outcome

/-- An attempt closes the delivery, or the next one of the schedule follows. -/
theorem sequelAt_cases :
    (∃ result finish,
        publisher.closing? timer replies now event tie failures.val.toNat =
          some (result, finish) ∧
        publisher.sequelAt timer replies now event tie failures = .closed result finish) ∨
      publisher.closing? timer replies now event tie failures.val.toNat = none ∧
        ∃ allowed, publisher.sequelAt timer replies now event tie failures =
          .again allowed (publisher.startAt timer replies now (failures.val.toNat + 1)) := by
  have reads := failures.toNat_add_one
  simp only [sequelAt]
  generalize failures.val.toNat = n at *
  generalize failures.val + 1 = attempts at *
  cases outcome : (replies n).outcome with
  | ok receipt =>
      rw [closing?_of_ok outcome]
      exact .inl ⟨_, _, rfl, by rw [sequel, reads]⟩
  | error error =>
      rw [sequel]
      split
      next done =>
        rw [reads] at done
        rw [closing?_of_exhausted outcome done]
        exact .inl ⟨_, _, rfl, by rw [reads]⟩
      next delay again =>
        simp only [reads] at again ⊢
        rw [closing?_of_retry outcome again, startAt_succ, pause_of_retry again]
        rcases settled : race (tie (n + 1)) (publisher.knownAt timer replies now n)
          (publisher.knownAt timer replies now n + timer.wait delay) event with ⟨_ | _, time⟩
        case timer =>
          have allowed : attempts < publisher.policy.maxAttempts :=
            UInt32.lt_iff_toNat_lt.2 (reads ▸ RetryPolicy.lt_maxAttempts_of_retry again)
          obtain rfl := time_of_race_timer settled
          rw [Nat.max_eq_right (Nat.le_add_right _ _)]
          exact .inr ⟨rfl, allowed, rfl⟩
        case stop => exact .inl ⟨_, _, rfl, rfl⟩

theorem deliverFrom_eq (body : String) :
    publisher.deliverFrom timer body replies event tie failures now =
      let attempt : Attempt := ⟨now, publisher.endpoint, body⟩
      let reply := replies failures.val.toNat
      match publisher.sequel timer event tie (failures + 1) (now + reply.latency) reply.outcome with
      | .closed result finish => ⟨[attempt], result, finish⟩
      | .again allowed start =>
          let later := publisher.deliverFrom timer body replies event tie ⟨_, allowed⟩ start
          { later with attempts := attempt :: later.attempts } := by
  rw [deliverFrom, deliverBy]
  simp only [pure_bind]
  generalize publisher.sequel _ _ _ _ _ _ = next
  cases next with
  | closed => rfl
  | again => rfl

variable {body : String}

theorem deliverFrom_of_closed {result : Except DeliveryError Ack} {finish : Nat}
    (h : publisher.sequelAt timer replies now event tie failures = .closed result finish) :
    publisher.deliverFrom timer body replies event tie failures
        (publisher.startAt timer replies now failures.val.toNat) =
      ⟨[publisher.attemptAt timer replies now body failures.val.toNat], result, finish⟩ := by
  rw [sequelAt, knownAt] at h
  rw [deliverFrom_eq]
  simp only [h, attemptAt]

theorem deliverFrom_of_again {allowed : failures.val + 1 < publisher.policy.maxAttempts}
    {start : Nat}
    (h : publisher.sequelAt timer replies now event tie failures = .again allowed start) :
    publisher.deliverFrom timer body replies event tie failures
        (publisher.startAt timer replies now failures.val.toNat) =
      let later := publisher.deliverFrom timer body replies event tie ⟨_, allowed⟩ start
      { later with
        attempts := publisher.attemptAt timer replies now body failures.val.toNat ::
          later.attempts } := by
  rw [sequelAt, knownAt] at h
  rw [deliverFrom_eq]
  simp only [h, attemptAt]

end Turn

/-! ## Whole deliveries -/

/-- A delivery makes the attempts of its schedule, from `first` to the first one that closes it, and
comes to what that one says. -/
structure Course (publisher : Publisher) (timer : Timer) (replies : Replies) (now : Nat)
    (event : Option Event) (tie : Nat → Branch) (body : String) (first last : Nat)
    (delivery : Delivery) : Prop where
  first_le : first ≤ last
  closes : publisher.closing? timer replies now event tie last =
    some (delivery.result, delivery.finish)
  goes_on : ∀ n, first ≤ n → n < last → publisher.closing? timer replies now event tie n = none
  attempts : delivery.attempts =
    (List.range' first (last + 1 - first)).map (publisher.attemptAt timer replies now body)

variable {event : Option Event} {tie : Nat → Branch} {body : String} {first last : Nat}
variable {delivery : Delivery}

theorem Course.of_closing? {result : Except DeliveryError Ack} {finish : Nat}
    (h : publisher.closing? timer replies now event tie first = some (result, finish)) :
    Course publisher timer replies now event tie body first first
      ⟨[publisher.attemptAt timer replies now body first], result, finish⟩ := by
  refine ⟨Nat.le_refl _, h, fun n le lt => absurd lt (Nat.not_lt.2 le), ?_⟩
  rw [Nat.add_sub_cancel_left]
  rfl

theorem Course.cons
    (h : publisher.closing? timer replies now event tie first = none)
    (later : Course publisher timer replies now event tie body (first + 1) last delivery) :
    Course publisher timer replies now event tie body first last
      { delivery with
        attempts := publisher.attemptAt timer replies now body first :: delivery.attempts } := by
  refine ⟨Nat.le_of_succ_le later.first_le, later.closes, fun n le lt => ?_, ?_⟩
  · rcases Nat.lt_or_eq_of_le le with lt' | rfl
    · exact later.goes_on n lt' lt
    · exact h
  · have le := later.first_le
    have : last + 1 - first = last + 1 - (first + 1) + 1 := by omega
    rw [this, List.range'_succ, List.map_cons]
    exact congrArg _ later.attempts

/-- Every delivery has a course. -/
theorem exists_course_deliverFrom (event : Option Event) (tie : Nat → Branch) (body : String)
    (failures : publisher.policy.Survivable) :
    ∃ last, Course publisher timer replies now event tie body failures.val.toNat last
      (publisher.deliverFrom timer body replies event tie failures
        (publisher.startAt timer replies now failures.val.toNat)) := by
  obtain ⟨left, hleft⟩ :
      ∃ left, publisher.policy.maxAttempts.toNat = failures.val.toNat + left + 1 :=
    ⟨publisher.policy.maxAttempts.toNat - failures.val.toNat - 1, by
      have := failures.toNat_lt
      omega⟩
  -- on the number of attempts that are still allowed after this one
  induction left generalizing failures with
  | zero =>
      rcases sequelAt_cases with ⟨result, finish, closing, closed⟩ | ⟨closing, -⟩
      · rw [deliverFrom_of_closed closed]
        exact ⟨_, .of_closing? closing⟩
      · have := lt_maxAttempts_of_closing?_eq_none closing
        omega
  | succ left ih =>
      rcases sequelAt_cases with ⟨result, finish, closing, closed⟩ | ⟨closing, allowed, again⟩
      · rw [deliverFrom_of_closed closed]
        exact ⟨_, .of_closing? closing⟩
      · have reads := failures.toNat_add_one
        obtain ⟨last, later⟩ := ih ⟨_, allowed⟩ (by dsimp only; omega)
        dsimp only at later
        rw [reads] at later
        rw [deliverFrom_of_again again]
        exact ⟨last, later.cons closing⟩

namespace Course

variable (course : Course publisher timer replies now event tie body 0 last delivery)

include course

theorem last_lt_maxAttempts : last < publisher.policy.maxAttempts.toNat := by
  rcases Nat.eq_zero_or_pos last with rfl | pos
  · exact publisher.policy.maxAttempts_toNat_pos
  · have := lt_maxAttempts_of_closing?_eq_none (course.goes_on (last - 1) (by omega) (by omega))
    omega

theorem length_attempts : delivery.attempts.length = last + 1 := by
  rw [course.attempts, List.length_map, List.length_range', Nat.sub_zero]

theorem mem_attempts {attempt : Attempt} :
    attempt ∈ delivery.attempts ↔
      ∃ n, n ≤ last ∧ attempt = publisher.attemptAt timer replies now body n := by
  simp only [course.attempts, List.mem_map, List.mem_range'_1]
  constructor
  · rintro ⟨n, ⟨-, lt⟩, rfl⟩
    exact ⟨n, by omega, rfl⟩
  · rintro ⟨n, le, rfl⟩
    exact ⟨n, ⟨by omega, by omega⟩, rfl⟩

theorem getElem?_attempts {n : Nat} {attempt : Attempt} :
    delivery.attempts[n]? = some attempt ↔
      n ≤ last ∧ attempt = publisher.attemptAt timer replies now body n := by
  rw [course.attempts, Nat.sub_zero, List.getElem?_map, Option.map_eq_some_iff]
  constructor
  · rintro ⟨m, eq, rfl⟩
    obtain ⟨lt, rfl⟩ := List.getElem?_eq_some_iff.1 eq
    rw [List.length_range'] at lt
    rw [List.getElem_range', Nat.one_mul, Nat.zero_add]
    exact ⟨by omega, rfl⟩
  · rintro ⟨le, rfl⟩
    exact ⟨n, by rw [List.getElem?_range' (by omega)]; simp, rfl⟩

theorem attempts_eq_cons :
    delivery.attempts = publisher.attemptAt timer replies now body 0 ::
      (List.range' 1 last).map (publisher.attemptAt timer replies now body) := by
  rw [course.attempts, Nat.sub_zero, List.range'_succ, List.map_cons]

theorem getLast?_attempts :
    delivery.attempts.getLast? = some (publisher.attemptAt timer replies now body last) := by
  rw [course.attempts, Nat.sub_zero, List.range'_1_concat, List.map_append, List.map_singleton,
    List.getLast?_concat, Nat.zero_add]

theorem failed {n : Nat} (h : n < last) : ∃ error, (replies n).outcome = .error error :=
  (failed_of_closing?_eq_none (course.goes_on n (Nat.zero_le _) h)).1

end Course

theorem exists_course_publish (publisher : Publisher) (timer : Timer) (report : Report)
    (replies : Replies) (now : Nat) :
    ∃ last, Course publisher timer replies now none (fun _ => .timer) report.wire 0 last
      (publisher.publish timer report replies now) :=
  exists_course_deliverFrom none _ report.wire publisher.policy.noFailures

theorem exists_course_publishUntil (publisher : Publisher) (timer : Timer) (report : Report)
    (replies : Replies) (event : Option Event) (tie : Nat → Branch) (now : Nat) :
    ∃ last, Course publisher timer replies now event tie report.wire 0 last
      (publisher.publishUntil timer report replies event tie now) :=
  exists_course_deliverFrom event tie report.wire publisher.policy.noFailures

end NodeInventory.Publisher
