import NodeInventory.Proofs.Delivery.Outcome
import NodeInventory.Proofs.Registration.Shutdown

/-!
# The account of a periodic registration

The number that a registration returns is the number of submissions that the service has accepted.
A run with a report counts its attempts anew, keeps to the bound of the policy and stops at the
first acceptance; one without a report submits nothing.  Whatever a run comes to, another one
follows it: nothing but a shutdown ends the registration.
-/

namespace NodeInventory

open Shutdown Transport

/-! ## Accepted submissions -/

namespace Transport.Replies

/-- How many of the first `n` submissions the service accepts. -/
def acceptances (replies : Replies) (n : Nat) : Nat :=
  (List.range n).countP fun k => (replies k).outcome.toBool

variable {replies : Replies}

theorem acceptances_succ (n : Nat) :
    replies.acceptances (n + 1) =
      replies.acceptances n + if (replies n).outcome.toBool then 1 else 0 := by
  rw [acceptances, List.range_succ, List.countP_append, List.countP_singleton, ← acceptances]

theorem acceptances_add (m n : Nat) :
    replies.acceptances (m + n) = replies.acceptances m + (replies.drop m).acceptances n := by
  induction n with
  | zero => rfl
  | succ n ih => rw [← Nat.add_assoc, acceptances_succ, acceptances_succ, ih, Nat.add_assoc]; rfl

theorem drop_drop (m n : Nat) : (replies.drop m).drop n = replies.drop (m + n) := by
  funext k
  exact congrArg replies (Nat.add_assoc m n k).symm

theorem acceptances_eq_zero {n : Nat}
    (failed : ∀ k < n, ∃ error, (replies k).outcome = .error error) :
    replies.acceptances n = 0 := by
  refine List.countP_eq_zero.2 fun k mem => ?_
  obtain ⟨error, outcome⟩ := failed k (List.mem_range.1 mem)
  rw [outcome]
  exact Bool.false_ne_true

end Transport.Replies

namespace Publisher.Course

variable {publisher : Publisher} {timer : Timer} {replies : Replies} {now last : Nat}
variable {event : Option Event} {tie : Nat → Branch} {body : String} {delivery : Delivery}
variable (course : Course publisher timer replies now event tie body 0 last delivery)

include course

/-- A delivery is acknowledged by the acceptance of its last attempt. -/
theorem toBool_result : delivery.result.toBool = (replies last).outcome.toBool := by
  cases outcome : (replies last).outcome with
  | ok receipt =>
      have made : last < delivery.attempts.length := by
        rw [course.length_attempts]
        exact Nat.lt_succ_self last
      rw [(course.result_of_accepted made outcome).2]
      rfl
  | error error =>
      have closes := course.closes
      cases decision : publisher.policy.afterFailure (last + 1) with
      | exhausted =>
          rw [closing?_of_exhausted outcome decision, Option.some.injEq, Prod.mk.injEq] at closes
          rw [← closes.1]
          rfl
      | retry delay =>
          rw [closing?_of_retry outcome decision] at closes
          split at closes
          next =>
            rw [Option.some.injEq, Prod.mk.injEq] at closes
            rw [← closes.1]
            rfl
          next => cases closes

theorem acceptances_attempts :
    replies.acceptances delivery.attempts.length = if delivery.result.toBool then 1 else 0 := by
  rw [course.length_attempts, Replies.acceptances_succ, course.toBool_result,
    Replies.acceptances_eq_zero fun k before => course.failed before, Nat.zero_add]

end Publisher.Course

namespace Service

open Publisher

variable {service : Service} {world : World} {period : Duration} {event : Option Event}

/-! ## One run -/

section Run

variable {tie : Nat → Branch} {used : Usage} {now : Nat}

theorem run_of_failure {failure : Failure}
    (collected : (service.collect world used).1 = .error failure) :
    service.run world event tie used now =
      ⟨now, (service.collect world used).2.calls, [], .error failure,
        now + (service.collect world used).2.elapsed⟩ := by
  rcases eq : service.collect world used with ⟨result, survey⟩
  rw [eq] at collected
  subst collected
  simp only [run, eq]

theorem run_of_report {report : Report}
    (collected : (service.collect world used).1 = .ok report) :
    service.run world event tie used now =
      let delivery := service.publisher.publishUntil world.timer report
        (world.replies.drop used.submissions) event tie
        (now + (service.collect world used).2.elapsed)
      ⟨now, (service.collect world used).2.calls, delivery.attempts,
        delivery.result.mapError .delivery, delivery.finish⟩ := by
  rcases eq : service.collect world used with ⟨result, survey⟩
  rw [eq] at collected
  subst collected
  simp only [run, eq]

theorem toBool_mapError {ε ε' α : Type} (f : ε → ε') (result : Except ε α) :
    (result.mapError f).toBool = result.toBool := by
  cases result <;> rfl

theorem isAcknowledged_eq_false_of_isCancelled {run : Run} (cancelled : run.isCancelled = true) :
    run.isAcknowledged = false := by
  obtain ⟨start, calls, attempts, result, finish⟩ := run
  cases result with
  | error failure => rfl
  | ok ack => cases cancelled

/-- A run is acknowledged where one of its submissions is accepted, and then only one is. -/
theorem acceptances_run {run : Run} (is_run : service.run world event tie used now = run) :
    (world.replies.drop used.submissions).acceptances run.attempts.length =
      if run.isAcknowledged then 1 else 0 := by
  rcases run_cases is_run with
    ⟨failure, -, rfl, -⟩ | ⟨report, last, delivery, -, course, rfl⟩
  · rfl
  · rw [Run.isAcknowledged, toBool_mapError]
    exact course.acceptances_attempts

end Run

/-- What becomes of the report of a run that has `before` behind it, where so many attempts are
allowed. -/
structure Delivers (service : Service) (world : World) (event : Option Event)
    (ties : Nat → Nat → Branch) (bound : Nat) (before : Usage) (report : Report) (run : Run) :
    Prop where
  attempts_pos : 1 ≤ run.attempts.length
  attempts_le : run.attempts.length ≤ bound
  /-- The first acceptance ends the run and is what it comes to. -/
  ends_accepted : ∀ k receipt, k < run.attempts.length →
    (world.replies (before.submissions + k)).outcome = .ok receipt →
      k + 1 = run.attempts.length ∧
        run.result = .ok ⟨k + 1, receipt.status, newRecord? receipt.body⟩
  /-- A counter of 32 bits reads 1 at the first attempt and goes up by one with each. -/
  counted : ∃ delivery readings,
    (service.publisher.deliverBy world.timer
        (noteCounter (world.replies.drop before.submissions)) report.wire event (ties before.runs)
        service.publisher.policy.noFailures (service.collectedAt world before run)).run [] =
      (delivery, readings) ∧
      readings.map UInt32.toNat = List.range' 1 run.attempts.length ∧
      run.attempts = delivery.attempts ∧ run.result = delivery.result.mapError .delivery

variable {ties : Nat → Nat → Branch}

theorem delivers_of_report {before : Usage} {run : Run} {report : Report}
    (is_run : service.run world event (ties before.runs) before run.start = run)
    (collected : (service.collect world before).1 = .ok report) :
    Delivers service world event ties service.publisher.policy.maxAttempts.toNat before report
      run := by
  rw [run_of_report collected] at is_run
  obtain ⟨last, course⟩ := exists_course_publishUntil service.publisher world.timer report
    (world.replies.drop before.submissions) event (ties before.runs)
    (service.collectedAt world before run)
  obtain ⟨readings, counting, numbers, -⟩ :=
    @deliverBy_noteCounter service.publisher world.timer
      (world.replies.drop before.submissions) (service.collectedAt world before run) event
      (ties before.runs) report.wire
  have attempts := congrArg Run.attempts is_run
  have result := congrArg Run.result is_run
  dsimp only at attempts result
  rw [← collectedAt] at attempts result
  have length : run.attempts.length = last + 1 := by
    rw [← attempts, course.length_attempts]
  constructor
  case attempts_pos => omega
  case attempts_le =>
    rw [length]
    exact course.last_lt_maxAttempts
  case ends_accepted =>
    intro k receipt made accepted
    rw [← attempts] at made
    obtain ⟨rfl, ack⟩ := course.result_of_accepted made accepted
    refine ⟨length.symm, ?_⟩
    rw [← result, ack]
    rfl
  case counted =>
    refine ⟨_, readings, counting, ?_, attempts.symm, result.symm⟩
    rw [← attempts]
    exact numbers

/-! ## Round after round -/

section Rounds

variable {count : Nat} {used : Usage} {acknowledged now due : Nat} {periodic : Periodic}

/-- Where no shutdown comes before it, the next tick starts a run. -/
theorem Rounds.exists_first
    (rounds : Rounds service world period event ties (count + 1) used acknowledged now due periodic)
    (early : ∀ stop, event = some stop → max now (Duration.ticks ⟨due⟩) < stop.time) :
    ∃ run, periodic.runs[0]? = some run ∧ run.start = max now (Duration.ticks ⟨due⟩) := by
  cases rounds with
  | stopped stops =>
      obtain ⟨stop, eq, -, le⟩ := exists_of_race_stop stops
      have := early stop eq
      omega
  | noticed tick requested =>
      cases event with
      | none => cases requested
      | some stop =>
          have := early stop rfl
          have := (channelAt_requested.1 requested).1
          rw [time_of_race_timer tick] at this
          omega
  | cancelled tick | ran tick =>
      refine ⟨_, rfl, ?_⟩
      rw [start_run, time_of_race_timer tick]

/-- The tick after a run that was taken at its own tick or later comes a period later at most. -/
theorem ticks_nextDue_le (period : Duration) {due taken : Nat}
    (behind : Duration.ticks ⟨due⟩ ≤ taken) :
    Duration.ticks ⟨nextDue period.nanos due (Duration.ofMillis taken).nanos⟩ ≤
      taken + period.ticks := by
  unfold nextDue
  split
  all_goals
    simp only [Duration.ticks, Duration.ofMillis_nanos] at behind ⊢
    omega

variable (rounds : Rounds service world period event ties count used acknowledged now due periodic)

include rounds

/-- Another run follows each, whatever that comes to, unless a shutdown comes before its tick. -/
theorem Rounds.exists_next {k : Nat} {run : Run} (at_k : periodic.runs[k]? = some run)
    (more : k + 1 < count)
    (early : ∀ stop, event = some stop → max run.finish (run.start + period.ticks) < stop.time) :
    ∃ next, periodic.runs[k + 1]? = some next ∧
      next.start ≤ max run.finish (run.start + period.ticks) := by
  induction rounds generalizing k with
  | unfinished | stopped | noticed => cases at_k
  | cancelled tick quiet ended =>
      cases k with
      | succ k => cases at_k
      | zero =>
          cases at_k
          obtain ⟨stop, eq, le⟩ := stop_of_isCancelled rfl ended
          have := early stop eq
          omega
  | @ran count used acknowledged now due time later tick quiet goes_on rest ih =>
      cases k with
      | succ k => exact ih at_k (by omega)
      | zero =>
          cases at_k
          rw [start_run] at early ⊢
          have behind : Duration.ticks ⟨due⟩ ≤ time := by
            rw [time_of_race_timer tick]
            exact Nat.le_max_right _ _
          have next_tick := ticks_nextDue_le period behind
          obtain ⟨count, rfl⟩ := Nat.exists_eq_add_one.2 (show 0 < count by omega)
          obtain ⟨next, first, start⟩ := rest.exists_first fun stop eq => by
            have := early stop eq
            omega
          exact ⟨next, first, by omega⟩

/-- All runs together have as many submissions accepted as there are acknowledged runs. -/
theorem Rounds.acceptances_attempts :
    (world.replies.drop used.submissions).acceptances
        (periodic.runs.flatMap Run.attempts).length =
      periodic.runs.countP Run.isAcknowledged := by
  induction rounds with
  | unfinished | stopped | noticed => rfl
  | cancelled tick quiet ended =>
      rw [List.flatMap_singleton, List.countP_singleton]
      exact acceptances_run rfl
  | ran tick quiet goes_on rest ih =>
      rw [List.flatMap_cons, List.length_append, Replies.acceptances_add, acceptances_run rfl,
        List.countP_cons, ← ih, Replies.drop_drop, Nat.add_comm]
      rfl

/-- The registration counts its acknowledged runs. -/
theorem Rounds.acknowledged_eq {ending : Ending} (ends : periodic.ending = some ending) :
    ending.acknowledged = acknowledged + periodic.runs.countP Run.isAcknowledged := by
  induction rounds with
  | unfinished => cases ends
  | stopped | noticed => cases ends; rfl
  | cancelled tick quiet ended =>
      cases ends
      rw [List.countP_singleton, isAcknowledged_eq_false_of_isCancelled ended]
      rfl
  | ran tick quiet goes_on rest ih =>
      rw [ih ends, List.countP_cons]
      omega

end Rounds

/-! ## The whole registration -/

/-- The account of a registration that is given `count` rounds with `used` behind it, where each
run is allowed so many attempts. -/
structure Accounts (service : Service) (world : World) (period : Duration) (event : Option Event)
    (ties : Nat → Nat → Branch) (bound count : Nat) (used : Usage) (runs : List Run)
    (ended : Option Ending) : Prop where
  /-- The number returned is the number of accepted submissions of all runs. -/
  accepted : ∀ ending, ended = some ending → ending.acknowledged =
    (world.replies.drop used.submissions).acceptances (runs.flatMap Run.attempts).length
  acknowledged : ∀ ending, ended = some ending →
    ending.acknowledged = runs.countP Run.isAcknowledged
  without_report : ∀ before run, (before, run) ∈ trail used runs → ∀ failure,
    (service.collect world before).1 = .error failure →
      run.attempts = [] ∧ run.result = .error failure ∧ run.isAcknowledged = false
  with_report : ∀ before run, (before, run) ∈ trail used runs → ∀ report,
    (service.collect world before).1 = .ok report →
      Delivers service world event ties bound before report run
  /-- Another run follows each, whatever that comes to, unless a shutdown comes before. -/
  goes_on : ∀ k run, runs[k]? = some run → k + 1 < count →
    (∀ stop, event = some stop → max run.finish (run.start + period.ticks) < stop.time) →
      ∃ next, runs[k + 1]? = some next ∧ next.start ≤ max run.finish (run.start + period.ticks)
  only_shutdown : ∀ ending, ended = some ending →
    ∃ stop, event = some stop ∧ stop.time ≤ ending.time
  endless : ended = none → runs.length = count

/-- A registration returns the number of submissions that the service has accepted, each run starts
its attempts anew, and none but a shutdown ends it.  A requested one does. -/
theorem periodic_accounts (tools : List Tool) (endpoint : String) (maxAttempts : UInt32)
    (delay : Duration) (factor : Binary64) (world : World) (period : Duration)
    (event : Option Event) (ties : Nat → Nat → Branch) (count : Nat) (used : Usage) (now : Nat)
    (period_pos : 0 < period.nanos) :
    let service : Service := ⟨tools, endpoint, .of maxAttempts delay factor⟩
    ∃ runs ended, service.periodic world period event ties count used now = .ok ⟨runs, ended⟩ ∧
      Accounts service world period event ties (max 1 maxAttempts.toNat) count used runs ended ∧
      ∀ shutdown, event = some ⟨shutdown, .requested⟩ →
        roundsUntil period ⟨shutdown, .requested⟩ now ≤ count → ended.isSome := by
  intro service
  have bound : service.publisher.policy.maxAttempts.toNat = max 1 maxAttempts.toNat :=
    RetryPolicy.of_maxAttempts_toNat maxAttempts delay factor
  have rounds := service.rounds_spec world period event ties count used 0 now
    (Duration.ofMillis now).nanos
  refine ⟨_, _, service.periodic_of_pos world period_pos event ties count used now, ?_, ?_⟩
  · constructor
    case accepted =>
      intro ending ends
      rw [rounds.acknowledged_eq ends, rounds.acceptances_attempts, Nat.zero_add]
    case acknowledged =>
      intro ending ends
      rw [rounds.acknowledged_eq ends, Nat.zero_add]
    case without_report =>
      intro before run mem failure collected
      have is_run := (rounds.of_mem_trail mem).1
      rw [run_of_failure collected] at is_run
      rw [is_run]
      exact ⟨rfl, rfl, rfl⟩
    case with_report =>
      intro before run mem report collected
      rw [← bound]
      exact delivers_of_report (rounds.of_mem_trail mem).1.symm collected
    case goes_on =>
      intro k run at_k more early
      exact rounds.exists_next at_k more early
    case only_shutdown =>
      intro ending ends
      exact rounds.stop_of_ending ends
    case endless => exact rounds.length_runs
  · rintro shutdown rfl enough
    obtain ⟨runs, ending, eq⟩ :=
      service.exists_ending world period ties shutdown count 0 now used period_pos enough
    rw [eq]
    rfl

/-- A run that finds the service away is not the last, and the next one is accepted at 18 in spite
of a request at 15. -/
theorem periodic_accounts_of_late_acceptance :
    let world : World :=
      ⟨fun _ _ => ⟨.error (.notInstalled "etcd"), 1⟩, fun _ => ⟨.ok [], .ok ⟨"", ""⟩⟩,
        .refuseThenAccept 2 5, .exact⟩
    let service : Service :=
      ⟨[.etcd], "http://127.0.0.1:5000/discovery", .of 2 (.ofMillis 1) 1⟩
    0 < (Duration.ofMillis 10).nanos ∧
      ∃ runs ended, service.periodic world (.ofMillis 10) (some ⟨15, .requested⟩)
          (fun _ _ => .timer) 4 .none 0 = .ok ⟨runs, ended⟩ ∧
        Accounts service world (.ofMillis 10) (some ⟨15, .requested⟩) (fun _ _ => .timer)
          (max 1 (2 : UInt32).toNat) 4 .none runs ended ∧
        ∀ shutdown, some ⟨15, .requested⟩ = some (⟨shutdown, .requested⟩ : Event) →
          roundsUntil (.ofMillis 10) ⟨shutdown, .requested⟩ 0 ≤ 4 → ended.isSome := by
  intro world service
  have period_pos : 0 < (Duration.ofMillis 10).nanos := by decide
  exact ⟨period_pos, periodic_accounts [.etcd] "http://127.0.0.1:5000/discovery" 2 (.ofMillis 1) 1
    world (.ofMillis 10) (some ⟨15, .requested⟩) (fun _ _ => .timer) 4 .none 0 period_pos⟩

end Service

end NodeInventory
