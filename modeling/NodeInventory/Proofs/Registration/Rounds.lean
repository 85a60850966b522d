import NodeInventory.Proofs.Delivery.Schedule
import NodeInventory.Registration

/-!
# The rounds of a periodic registration

`Rounds` says what a registration does round by round; it holds of every registration, and what is
said of all runs of one is proved by induction on it.  A shutdown ends every registration that is
given the rounds that are due before it.
-/

namespace NodeInventory.Service

open Command Shutdown Transport Publisher

variable {service : Service} {world : World} {period : Duration} {event : Option Event}

/-! ## One run -/

section Run

variable {tie : Nat → Branch} {used : Usage} {now : Nat}

@[simp] theorem start_run : (service.run world event tie used now).start = now := by
  unfold run
  split
  rename_i report survey _
  cases report <;> rfl

/-- A collection fails with the inventory, never with a delivery. -/
theorem collect_ne_delivery (service : Service) (world : World) (used : Usage)
    (error : DeliveryError) : (service.collect world used).1 ≠ .error (.delivery error) := by
  intro collected
  simp only [collect, NodeInventory.collect, assemble] at collected
  split at collected
  next => cases collected
  next =>
    split at collected
    next => cases collected
    next => split at collected <;> cases collected

/-- A run whose collection fails delivers nothing; any other delivers the report. -/
theorem run_cases {run : Run} (is_run : service.run world event tie used now = run) :
    (∃ failure, (service.collect world used).1 = .error failure ∧
      run = ⟨now, (service.collect world used).2.calls, [], .error failure,
        now + (service.collect world used).2.elapsed⟩ ∧ ¬run.isCancelled = true) ∨
    ∃ report last delivery, (service.collect world used).1 = .ok report ∧
      Course service.publisher world.timer (world.replies.drop used.submissions)
        (now + (service.collect world used).2.elapsed) event tie report.wire 0 last delivery ∧
      run = ⟨now, (service.collect world used).2.calls, delivery.attempts,
        delivery.result.mapError .delivery, delivery.finish⟩ := by
  have not_delivery := service.collect_ne_delivery world used
  rcases eq : service.collect world used with ⟨report, survey⟩
  simp only [Service.run, eq] at is_run
  rw [eq] at not_delivery
  cases report with
  | error failure =>
      subst is_run
      refine .inl ⟨failure, rfl, rfl, fun cancelled => ?_⟩
      match failure, cancelled with
      | .delivery error, _ => exact not_delivery error rfl
  | ok report =>
      obtain ⟨last, course⟩ := exists_course_publishUntil service.publisher world.timer report
        (world.replies.drop used.submissions) event tie (now + survey.elapsed)
      exact .inr ⟨report, last, _, rfl, course, is_run.symm⟩

theorem isCancelled_iff {start : Nat} {calls : List Invocation} {delivery : Delivery} :
    Run.isCancelled ⟨start, calls, delivery.attempts, delivery.result.mapError .delivery,
        delivery.finish⟩ = true ↔
      ∃ failures, delivery.result = .error (.cancelled failures) := by
  obtain ⟨attempts, result, finish⟩ := delivery
  constructor
  · intro h
    match result, h with
    | .error (.cancelled failures), _ => exact ⟨failures, rfl⟩
  · rintro ⟨failures, rfl⟩
    rfl

end Run

/-! ## Round after round -/

variable {ties : Nat → Nat → Branch}

/-- The rounds from one on.  The shutdown ends the registration at the race for a tick, or when it
is noticed behind the tick, or through a run that it cancels; after any other run a round
follows. -/
inductive Rounds (service : Service) (world : World) (period : Duration) (event : Option Event)
    (ties : Nat → Nat → Branch) :
    (count : Nat) → (used : Usage) → (acknowledged now due : Nat) → Periodic → Prop
  | unfinished {used acknowledged now due} :
      Rounds service world period event ties 0 used acknowledged now due ⟨[], none⟩
  | stopped {count used acknowledged now due time}
      (stop : race (ties used.runs 0) now (Duration.ticks ⟨due⟩) event = (.stop, time)) :
      Rounds service world period event ties (count + 1) used acknowledged now due
        ⟨[], some ⟨time, acknowledged⟩⟩
  | noticed {count used acknowledged now due time}
      (tick : race (ties used.runs 0) now (Duration.ticks ⟨due⟩) event = (.timer, time))
      (requested : (channelAt event time).requested = true) :
      Rounds service world period event ties (count + 1) used acknowledged now due
        ⟨[], some ⟨time, acknowledged⟩⟩
  | cancelled {count used acknowledged now due time}
      (tick : race (ties used.runs 0) now (Duration.ticks ⟨due⟩) event = (.timer, time))
      (quiet : ¬(channelAt event time).requested = true)
      (ended : (service.run world event (ties used.runs) used time).isCancelled = true) :
      Rounds service world period event ties (count + 1) used acknowledged now due
        ⟨[service.run world event (ties used.runs) used time],
          some ⟨(service.run world event (ties used.runs) used time).finish, acknowledged⟩⟩
  | ran {count used acknowledged now due time later}
      (tick : race (ties used.runs 0) now (Duration.ticks ⟨due⟩) event = (.timer, time))
      (quiet : ¬(channelAt event time).requested = true)
      (goes_on : ¬(service.run world event (ties used.runs) used time).isCancelled = true)
      (rest : Rounds service world period event ties count
        (used.afterRun (service.run world event (ties used.runs) used time))
        (acknowledged +
          if (service.run world event (ties used.runs) used time).isAcknowledged then 1 else 0)
        (service.run world event (ties used.runs) used time).finish
        (nextDue period.nanos due (Duration.ofMillis time).nanos) later) :
      Rounds service world period event ties (count + 1) used acknowledged now due
        ⟨service.run world event (ties used.runs) used time :: later.runs, later.ending⟩

theorem rounds_spec (service : Service) (world : World) (period : Duration) (event : Option Event)
    (ties : Nat → Nat → Branch) (count : Nat) (used : Usage) (acknowledged now due : Nat) :
    Rounds service world period event ties count used acknowledged now due
      (service.rounds world period event ties count used acknowledged now due) := by
  induction count generalizing used acknowledged now due with
  | zero => exact .unfinished
  | succ count ih =>
      rw [rounds]
      split
      next stop => exact .stopped stop
      next tick =>
        split
        next requested => exact .noticed tick requested
        next quiet =>
          dsimp only
          split
          next ended => exact .cancelled tick quiet ended
          next goes_on => exact .ran tick quiet goes_on (ih ..)

theorem periodic_of_pos (service : Service) (world : World) {period : Duration}
    (positive : 0 < period.nanos) (event : Option Event) (ties : Nat → Nat → Branch) (count : Nat)
    (used : Usage) (now : Nat) :
    service.periodic world period event ties count used now =
      .ok (service.rounds world period event ties count used 0 now
        (Duration.ofMillis now).nanos) := by
  have : period.isZero = false := decide_eq_false (Nat.ne_of_gt positive)
  rw [periodic, this]
  rfl

/-! ## What the runs have behind them -/

/-- The runs, each with what was used up before it. -/
def trail (used : Usage) : List Run → List (Usage × Run)
  | [] => []
  | run :: later => (used, run) :: trail (used.afterRun run) later

theorem exists_mem_trail (used : Usage) {runs : List Run} {run : Run} (mem : run ∈ runs) :
    ∃ before, (before, run) ∈ trail used runs := by
  induction runs generalizing used with
  | nil => cases mem
  | cons first later ih =>
      rcases List.mem_cons.1 mem with rfl | mem
      · exact ⟨used, List.mem_cons_self⟩
      · obtain ⟨before, mem⟩ := ih (used.afterRun first) mem
        exact ⟨before, List.mem_cons_of_mem _ mem⟩

/-- Every run is one of the service, and starts without a request noticed. -/
theorem Rounds.of_mem_trail {count : Nat} {used : Usage} {acknowledged now due : Nat}
    {periodic : Periodic}
    (rounds : Rounds service world period event ties count used acknowledged now due periodic)
    {before : Usage} {run : Run} (mem : (before, run) ∈ trail used periodic.runs) :
    run = service.run world event (ties before.runs) before run.start ∧
      ¬(channelAt event run.start).requested = true := by
  induction rounds with
  | unfinished | stopped | noticed => cases mem
  | cancelled tick quiet ended =>
      rcases List.mem_cons.1 mem with eq | mem
      · cases eq
        rw [start_run]
        exact ⟨rfl, quiet⟩
      · cases mem
  | ran tick quiet goes_on rest ih =>
      rcases List.mem_cons.1 mem with eq | mem
      · cases eq
        rw [start_run]
        exact ⟨rfl, quiet⟩
      · exact ih mem

/-! ## What ends the rounds -/

/-- A run is cancelled by a shutdown that comes before it is over. -/
theorem stop_of_isCancelled {tie : Nat → Branch} {used : Usage} {now : Nat} {run : Run}
    (is_run : service.run world event tie used now = run) (cancelled : run.isCancelled = true) :
    ∃ stop, event = some stop ∧ stop.time ≤ run.finish := by
  rcases run_cases is_run with
    ⟨failure, -, -, not_cancelled⟩ | ⟨report, last, delivery, -, course, rfl⟩
  · exact absurd cancelled not_cancelled
  · obtain ⟨failures, result⟩ := isCancelled_iff.1 cancelled
    rcases finish_of_closing? course.closes with ⟨other, -⟩ | ⟨-, stop, eq, finish⟩
    · exact absurd result (other failures)
    · refine ⟨stop, eq, ?_⟩
      rw [finish]
      exact Nat.le_max_right _ _

/-- Nothing but a shutdown ends a registration. -/
theorem Rounds.stop_of_ending {count : Nat} {used : Usage} {acknowledged now due : Nat}
    {periodic : Periodic}
    (rounds : Rounds service world period event ties count used acknowledged now due periodic)
    {ending : Ending} (ends : periodic.ending = some ending) :
    ∃ stop, event = some stop ∧ stop.time ≤ ending.time := by
  induction rounds with
  | unfinished => cases ends
  | stopped stop =>
      cases ends
      obtain ⟨stop, eq, time, -⟩ := exists_of_race_stop stop
      exact ⟨stop, eq, time ▸ Nat.le_max_right _ _⟩
  | noticed tick requested =>
      cases ends
      cases event with
      | none => cases requested
      | some stop => exact ⟨stop, rfl, (channelAt_requested.1 requested).1⟩
  | cancelled tick quiet ended =>
      cases ends
      exact stop_of_isCancelled rfl ended
  | ran tick quiet goes_on rest ih => exact ih ends

/-- A registration that does not end uses up its rounds. -/
theorem Rounds.length_runs {count : Nat} {used : Usage} {acknowledged now due : Nat}
    {periodic : Periodic}
    (rounds : Rounds service world period event ties count used acknowledged now due periodic)
    (endless : periodic.ending = none) : periodic.runs.length = count := by
  induction rounds with
  | unfinished => rfl
  | stopped | noticed | cancelled => cases endless
  | ran tick quiet goes_on rest ih => rw [List.length_cons, ih endless]

/-! ## An end to the rounds -/

/-- A tick is due at least a period after the last one. -/
theorem add_period_le_nextDue (period due taken : Nat) :
    due + period ≤ nextDue period due taken := by
  unfold nextDue
  split <;> omega

/-- Where a request comes no more than some periods after the next tick is due, a round for each of
them and one more make an end. -/
theorem Rounds.ending_isSome {shutdown : Nat} {count : Nat} {used : Usage}
    {acknowledged now due : Nat} {periodic : Periodic}
    (rounds : Rounds service world period (some ⟨shutdown, .requested⟩) ties count used acknowledged
      now due periodic)
    {left : Nat} (near : (Duration.ofMillis shutdown).nanos ≤ due + left * period.nanos)
    (enough : left < count) : periodic.ending.isSome := by
  induction rounds generalizing left with
  | unfinished => cases enough
  | stopped | noticed | cancelled => rfl
  | @ran count used acknowledged now due time later tick quiet goes_on rest ih =>
      have early := lt_of_not_requested quiet
      have rings := time_of_race_timer tick
      simp only [Duration.ticks, Duration.ofMillis_nanos] at rings near
      cases left with
      | zero => omega
      | succ left =>
          refine @ih left ?_ (by omega)
          have := add_period_le_nextDue period.nanos due (Duration.ofMillis time).nanos
          rw [Nat.succ_mul] at near
          simp only [Duration.ofMillis_nanos] at this ⊢
          omega

/-- The rounds that are due before a shutdown are enough to reach it. -/
theorem exists_ending (service : Service) (world : World) (period : Duration)
    (ties : Nat → Nat → Branch) (shutdown count acknowledged now : Nat) (used : Usage)
    (positive : 0 < period.nanos) (enough : roundsUntil period ⟨shutdown, .requested⟩ now ≤ count) :
    ∃ runs ending, service.rounds world period (some ⟨shutdown, .requested⟩) ties count used
      acknowledged now (Duration.ofMillis now).nanos = ⟨runs, some ending⟩ := by
  have rounds := service.rounds_spec world period (some ⟨shutdown, .requested⟩) ties count used
    acknowledged now (Duration.ofMillis now).nanos
  have near : (Duration.ofMillis shutdown).nanos ≤ (Duration.ofMillis now).nanos +
      ((Duration.ofMillis (shutdown - now)).nanos / period.nanos + 1) * period.nanos := by
    have := Nat.lt_div_mul_add (a := (Duration.ofMillis (shutdown - now)).nanos) positive
    rw [Nat.succ_mul]
    simp only [Duration.ofMillis_nanos] at this ⊢
    omega
  obtain ⟨ending, eq⟩ := Option.isSome_iff_exists.1 (rounds.ending_isSome near enough)
  exact ⟨_, ending, by rw [← eq]⟩

end NodeInventory.Service
