import NodeInventory.Proofs.Registration.Shutdown

/-!
# A periodic registration without a sender

A sender that is gone ends the wait for a tick as a request does, but nobody notices it behind a
tick.  So a tick that is due when the wait begins can still be taken, and every run that starts
later is one of these: the run before it was not over by its tick.  Any other wait ends the
registration.
-/

namespace NodeInventory

open Shutdown

/-! ## A wait that begins after the shutdown -/

namespace Shutdown

variable {tie : Branch} {now due time : Nat} {event : Event}

/-- After the shutdown a timer only wins where it is due at once, and is taken. -/
theorem taken_of_late (wins : race tie now due (some event) = (.timer, time))
    (late : event.time < time) : time = now ∧ due ≤ now ∧ tie = .timer := by
  simp only [race] at wins
  split at wins
  · cases wins
    omega
  split at wins
  · cases wins
  · obtain ⟨rfl, rfl⟩ := Prod.mk.inj wins
    exact ⟨by omega, by omega, rfl⟩

/-- Where it is not due, or not taken, the shutdown ends the wait. -/
theorem race_eq_stop_of_not_taken (late : event.time < max now due)
    (not_taken : ¬(due ≤ now ∧ tie = .timer)) :
    race tie now due (some event) = (.stop, max now event.time) := by
  have not_before : ¬max now due < max now event.time := by omega
  simp only [race]
  rw [if_neg not_before]
  split
  next => rfl
  next same =>
    have together : max now due = max now event.time := by omega
    have stop : tie = .stop := by
      cases tie with
      | stop => rfl
      | timer => exact absurd ⟨by omega, rfl⟩ not_taken
    rw [stop, together]

end Shutdown

/-- The next tick comes a period after the last one was taken, but for the tolerance of a tick. -/
theorem taken_add_period_le_nextDue (period due taken : Nat) :
    taken + period ≤ nextDue period due taken + 5000000 := by
  unfold nextDue
  split <;> omega

namespace Service

open Transport Publisher

variable {service : Service} {world : World} {period : Duration} {event : Event}

/-- When the waits of a registration for its ticks begin, in milliseconds, and when the ticks are
due, in nanoseconds.  No wait follows a run that was cancelled. -/
def waits (period : Duration) : (now due : Nat) → List Run → List (Nat × Nat)
  | now, due, [] => [(now, due)]
  | now, due, run :: later =>
      (now, due) :: if run.isCancelled then []
        else waits period run.finish (nextDue period.nanos due (Duration.ofMillis run.start).nanos)
          later

theorem waits_head {now due : Nat} {runs : List Run} :
    (waits period now due runs)[0]? = some (now, due) := by
  cases runs <;> rfl

/-- A wait but the first begins as a run ends, for the tick after the one that the run was taken
at. -/
theorem of_getElem?_waits_succ {now due begins tick k : Nat} {runs : List Run} {run : Run}
    (wait : (waits period now due runs)[k + 1]? = some (begins, tick))
    (at_k : runs[k]? = some run) :
    begins = run.finish ∧
      ∃ due, tick = nextDue period.nanos due (Duration.ofMillis run.start).nanos := by
  induction runs generalizing now due k with
  | nil => cases at_k
  | cons first later ih =>
      rw [waits, List.getElem?_cons_succ] at wait
      split at wait
      · cases wait
      · cases k with
        | succ k => exact ih wait at_k
        | zero =>
            cases at_k
            cases waits_head.symm.trans wait
            exact ⟨rfl, due, rfl⟩

/-! ## Round after round -/

section Rounds

variable {ties : Nat → Nat → Branch} {count : Nat} {used : Usage} {acknowledged now due : Nat}
variable {periodic : Periodic}

/-- A run that starts after the shutdown has found its tick due, which was taken. -/
theorem Rounds.taken_of_late
    (rounds : Rounds service world period (some event) ties count used acknowledged now due
      periodic) {k : Nat} {run : Run} (at_k : periodic.runs[k]? = some run)
    (late : event.time < run.start) :
    ∃ tick, (waits period now due periodic.runs)[k]? = some (run.start, tick) ∧
      Duration.ticks ⟨tick⟩ ≤ run.start ∧ ties (used.runs + k) 0 = .timer := by
  induction rounds generalizing k with
  | unfinished | stopped | noticed => cases at_k
  | @cancelled _ used _ now due time tick quiet ended =>
      cases k with
      | succ k => cases at_k
      | zero =>
          cases at_k
          rw [start_run] at late ⊢
          obtain ⟨rfl, is_due, taken⟩ := Shutdown.taken_of_late tick late
          exact ⟨due, waits_head, is_due, taken⟩
  | @ran _ used _ now due time later tick quiet goes_on rest ih =>
      cases k with
      | zero =>
          cases at_k
          rw [start_run] at late ⊢
          obtain ⟨rfl, is_due, taken⟩ := Shutdown.taken_of_late tick late
          exact ⟨due, waits_head, is_due, taken⟩
      | succ k =>
          obtain ⟨tick, wait, is_due, taken⟩ := ih at_k
          refine ⟨tick, ?_, is_due, ?_⟩
          · rw [waits, if_neg goes_on, start_run]
            exact wait
          · rw [← Nat.add_assoc, Nat.add_right_comm]
            exact taken

/-- A wait that lasts beyond the shutdown ends a registration that begins with it, unless its tick
is due at once and taken. -/
theorem Rounds.stopped_of_not_taken
    (rounds : Rounds service world period (some event) ties (count + 1) used acknowledged now due
      periodic) (late : event.time < max now (Duration.ticks ⟨due⟩))
    (not_taken : ¬(Duration.ticks ⟨due⟩ ≤ now ∧ ties used.runs 0 = .timer)) :
    periodic = ⟨[], some ⟨max now event.time, acknowledged⟩⟩ := by
  have stops := race_eq_stop_of_not_taken late not_taken
  cases rounds with
  | stopped stop =>
      cases stops.symm.trans stop
      rfl
  | noticed wins | cancelled wins | ran wins => cases stops.symm.trans wins

/-- So does any later wait. -/
theorem Rounds.ends_of_not_taken
    (rounds : Rounds service world period (some event) ties count used acknowledged now due
      periodic) {k begins tick : Nat} (more : k < count)
    (wait : (waits period now due periodic.runs)[k]? = some (begins, tick))
    (late : event.time < max begins (Duration.ticks ⟨tick⟩))
    (not_taken : ¬(Duration.ticks ⟨tick⟩ ≤ begins ∧ ties (used.runs + k) 0 = .timer)) :
    periodic.runs.length = k ∧
      periodic.ending.map Ending.time = some (max begins event.time) := by
  induction k generalizing count used acknowledged now due periodic with
  | zero =>
      obtain ⟨count, rfl⟩ := Nat.exists_eq_add_one.2 more
      cases waits_head.symm.trans wait
      rw [rounds.stopped_of_not_taken late not_taken]
      exact ⟨rfl, rfl⟩
  | succ k ih =>
      cases rounds with
      | unfinished => cases more
      | stopped | noticed => cases wait
      | cancelled wins quiet ended =>
          rw [waits, if_pos ended] at wait
          cases wait
      | ran wins quiet goes_on rest =>
          rw [waits, if_neg goes_on, start_run] at wait
          rw [← Nat.add_assoc, Nat.add_right_comm] at not_taken
          obtain ⟨length, ends⟩ := ih rest (Nat.lt_of_succ_lt_succ more) wait not_taken
          exact ⟨congrArg (· + 1) length, ends⟩

/-- A run that starts after the shutdown makes no second attempt. -/
theorem Rounds.attempts_le_one
    (rounds : Rounds service world period (some event) ties count used acknowledged now due
      periodic) (positive : 0 < service.publisher.policy.delay.nanos) {run : Run}
    (mem : run ∈ periodic.runs) (late : event.time < run.start) : run.attempts.length ≤ 1 := by
  obtain ⟨before, among⟩ := exists_mem_trail used mem
  have is_run := (rounds.of_mem_trail among).1.symm
  rcases run_cases is_run with
    ⟨failure, -, eq, -⟩ | ⟨report, last, delivery, -, course, eq⟩
  · rw [eq]
    exact Nat.zero_le 1
  · have started := startAt_le_knownAt service.publisher world.timer
      (world.replies.drop before.submissions)
      (run.start + (service.collect world before).2.elapsed) 0
    have unknown := Nat.lt_of_lt_of_le (Nat.lt_add_right _ late) started
    obtain ⟨rfl, -⟩ := course.last_of_unknown positive (Nat.zero_le last) unknown
    rw [eq]
    exact Nat.le_of_eq course.length_attempts

end Rounds

/-! ## The whole registration -/

/-- A registration of these runs, called with `used` behind it at a time, whose sender is gone from
another time on. -/
structure Abandoned (service : Service) (period : Duration) (dropped : Nat)
    (ties : Nat → Nat → Branch) (count : Nat) (used : Usage) (now : Nat) (runs : List Run)
    (ended : Option Ending) : Prop where
  /-- A run starts later only at once, at a tick that was due and was taken before the stop. -/
  late_taken : ∀ k run, runs[k]? = some run → dropped < run.start →
    ∃ tick, (waits period now (Duration.ofMillis now).nanos runs)[k]? = some (run.start, tick) ∧
      Duration.ticks ⟨tick⟩ ≤ run.start ∧ ties (used.runs + k) 0 = .timer
  /-- The run before it was not over by its tick. -/
  late_overrun : ∀ k before run, runs[k]? = some before → runs[k + 1]? = some run →
    dropped < run.start → run.start = before.finish ∧
      (Duration.ofMillis before.start).nanos + period.nanos ≤
        (Duration.ofMillis before.finish).nanos + 5000000
  late_attempts : ∀ run ∈ runs, dropped < run.start → run.attempts.length ≤ 1
  /-- Where the stop is always taken first, none starts later. -/
  none_late : (∀ round, ties round 0 = .stop) → ∀ run ∈ runs, run.start ≤ dropped
  /-- Any other wait that lasts beyond the drop ends the registration, which waits no longer. -/
  ends : ∀ k begins tick, k < count →
    (waits period now (Duration.ofMillis now).nanos runs)[k]? = some (begins, tick) →
    dropped < max begins (Duration.ticks ⟨tick⟩) →
    ¬(Duration.ticks ⟨tick⟩ ≤ begins ∧ ties (used.runs + k) 0 = .timer) →
      runs.length = k ∧ ended.map Ending.time = some (max begins dropped)

/-- Once the sender is gone, a registration starts a run only where a run has missed its tick, or
the call comes later, and the tick is taken before the stop; every other wait ends it. -/
theorem periodic_abandoned (service : Service) (world : World) (period : Duration) (dropped : Nat)
    (ties : Nat → Nat → Branch) (count : Nat) (used : Usage) (now : Nat)
    (period_pos : 0 < period.nanos) (delay_pos : 0 < service.publisher.policy.delay.nanos) :
    ∃ runs ended, service.periodic world period (some ⟨dropped, .abandoned⟩) ties count used now =
        .ok ⟨runs, ended⟩ ∧
      Abandoned service period dropped ties count used now runs ended := by
  have rounds := service.rounds_spec world period (some ⟨dropped, .abandoned⟩) ties count used 0 now
    (Duration.ofMillis now).nanos
  refine ⟨_, _, service.periodic_of_pos world period_pos _ ties count used now, ?_⟩
  constructor
  case late_taken => exact fun k run at_k late => rounds.taken_of_late at_k late
  case late_overrun =>
    intro k before run at_k at_succ late
    obtain ⟨tick, wait, is_due, -⟩ := rounds.taken_of_late at_succ late
    obtain ⟨start, due, rfl⟩ := of_getElem?_waits_succ wait at_k
    have spaced :=
      taken_add_period_le_nextDue period.nanos due (Duration.ofMillis before.start).nanos
    refine ⟨start, ?_⟩
    rw [← start]
    simp only [Duration.ticks, Duration.ofMillis_nanos] at is_due spaced ⊢
    omega
  case late_attempts => exact fun run mem late => rounds.attempts_le_one delay_pos mem late
  case none_late =>
    intro stops run mem
    refine Nat.le_of_not_lt fun late => ?_
    obtain ⟨k, at_k⟩ := List.mem_iff_getElem?.1 mem
    obtain ⟨-, -, -, taken⟩ := rounds.taken_of_late at_k late
    cases (stops _).symm.trans taken
  case ends => exact fun k begins tick more wait => rounds.ends_of_not_taken more wait

/-- Runs of 25 at ticks every 10, and a stop at 15 that is taken first. -/
theorem periodic_abandoned_in_long_run :
    let service : Service :=
      ⟨[.etcd], ⟨"http://127.0.0.1:5000/discovery", .fixed 1 (.ofMillis 1)⟩⟩
    let world : World :=
      ⟨fun _ _ => ⟨.error (.notInstalled "etcd"), 0⟩, fun _ => ⟨.ok [], .ok ⟨"", ""⟩⟩,
        .refuseThenAccept 0 25, .exact⟩
    0 < (Duration.ofMillis 10).nanos ∧ 0 < service.publisher.policy.delay.nanos ∧
      ∃ runs ended, service.periodic world (.ofMillis 10) (some ⟨15, .abandoned⟩)
          (fun _ _ => .stop) 3 .none 0 = .ok ⟨runs, ended⟩ ∧
        Abandoned service (.ofMillis 10) 15 (fun _ _ => .stop) 3 .none 0 runs ended := by
  intro service world
  have period_pos : 0 < (Duration.ofMillis 10).nanos := by decide
  have delay_pos : 0 < service.publisher.policy.delay.nanos := by decide
  exact ⟨period_pos, delay_pos, periodic_abandoned service world (.ofMillis 10) 15
    (fun _ _ => .stop) 3 .none 0 period_pos delay_pos⟩

/-- The same runs, where the tick is taken first: none of them is the last. -/
theorem periodic_goes_on_without_sender :
    let service : Service :=
      ⟨[.etcd], ⟨"http://127.0.0.1:5000/discovery", .fixed 1 (.ofMillis 1)⟩⟩
    let world : World :=
      ⟨fun _ _ => ⟨.error (.notInstalled "etcd"), 0⟩, fun _ => ⟨.ok [], .ok ⟨"", ""⟩⟩,
        .refuseThenAccept 0 25, .exact⟩
    0 < (Duration.ofMillis 10).nanos ∧ 0 < service.publisher.policy.delay.nanos ∧
      ∃ runs ended, service.periodic world (.ofMillis 10) (some ⟨15, .abandoned⟩)
          (fun _ _ => .timer) 3 .none 0 = .ok ⟨runs, ended⟩ ∧
        runs.map Run.start = [0, 25, 50] ∧ runs.map Run.finish = [25, 50, 75] ∧
        ∃ run ∈ runs, 15 < run.start := by
  intro service world
  have period_pos : 0 < (Duration.ofMillis 10).nanos := by decide
  have delay_pos : 0 < service.publisher.policy.delay.nanos := by decide
  have eq := service.periodic_of_pos world period_pos (some ⟨15, .abandoned⟩) (fun _ _ => .timer) 3
    .none 0
  generalize known : service.rounds world (.ofMillis 10) (some ⟨15, .abandoned⟩)
    (fun _ _ => .timer) 3 .none 0 0 (Duration.ofMillis 0).nanos = periodic at eq
  have starts : periodic.runs.map Run.start = [0, 25, 50] := by
    rw [← known]
    decide +kernel
  have finishes : periodic.runs.map Run.finish = [25, 50, 75] := by
    rw [← known]
    decide +kernel
  have late : 25 ∈ periodic.runs.map Run.start := by
    rw [starts]
    decide
  obtain ⟨run, mem, start⟩ := List.mem_map.1 late
  have after : 15 < run.start := by
    rw [start]
    decide
  exact ⟨period_pos, delay_pos, _, _, eq, starts, finishes, run, mem, after⟩

end Service

end NodeInventory
