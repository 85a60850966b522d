import NodeInventory.Proofs.Delivery.Cancellation
import NodeInventory.Proofs.Registration.Rounds

/-!
# A shutdown of a periodic registration

A request finds the registration idle, in a retry wait, collecting, or with an attempt under way.
It ends at once in the first two, and otherwise with the attempt, where a collection that succeeds
still makes one.
-/

namespace NodeInventory.Service

open Shutdown Transport Publisher

variable {service : Service} {world : World}

/-! ## The phases of a run -/

/-- When the tools of a run have answered. -/
def collectedAt (service : Service) (world : World) (before : Usage) (run : Run) : Nat :=
  run.start + (service.collect world before).2.elapsed

/-- A run that has `before` behind it still collects at a time. -/
def Collecting (service : Service) (world : World) (before : Usage) (run : Run) (time : Nat) :
    Prop :=
  run.start ≤ time ∧ time < service.collectedAt world before run

/-- An attempt of the run is under way at a time, and its outcome known at another. -/
def InFlight (world : World) (before : Usage) (run : Run) (time known : Nat) : Prop :=
  ∃ i attempt, run.attempts[i]? = some attempt ∧
    known = attempt.start + (world.replies (before.submissions + i)).latency ∧
    attempt.start ≤ time ∧ time < known

/-! ## What a shutdown leaves of a run -/

section Run

variable {event : Event} {tie : Nat → Branch} {used : Usage} {now : Nat} {run : Run}
variable (is_run : service.run world (some event) tie used now = run)
variable (positive : 0 < service.publisher.policy.delay.nanos)

include is_run positive

/-- An attempt under way ends the run. -/
theorem finish_of_inFlight {known : Nat} (inFlight : InFlight world used run event.time known) :
    run.finish = known := by
  obtain ⟨i, attempt, eq, rfl, started, unknown⟩ := inFlight
  rcases run_cases is_run with
    ⟨failure, collected, rfl, -⟩ | ⟨report, last, delivery, collected, course, rfl⟩
  · cases eq
  · obtain ⟨le, rfl⟩ := course.getElem?_attempts.1 eq
    exact (course.last_of_unknown positive le unknown).2

/-- A collection under way ends the run, or one attempt more does. -/
theorem finish_of_collecting (collecting : service.Collecting world used run event.time) :
    (∃ failure, (service.collect world used).1 = .error failure ∧ run.attempts = [] ∧
        run.finish = service.collectedAt world used run) ∨
      ∃ report attempt, (service.collect world used).1 = .ok report ∧ run.attempts = [attempt] ∧
        attempt.start = service.collectedAt world used run ∧
        run.finish = attempt.start + (world.replies used.submissions).latency := by
  obtain ⟨-, late⟩ := collecting
  rcases run_cases is_run with
    ⟨failure, collected, rfl, -⟩ | ⟨report, last, delivery, collected, course, rfl⟩
  · exact .inl ⟨failure, collected, rfl, rfl⟩
  · obtain ⟨rfl, finish⟩ := course.last_of_unknown positive (Nat.zero_le _)
      (Nat.lt_of_lt_of_le late (startAt_le_knownAt _ _ _ _ 0))
    exact .inr ⟨report, _, collected, course.attempts_eq_cons, rfl, finish⟩

/-- A run that neither collects nor has an attempt under way is over, or ends at once. -/
theorem finish_of_quiet (early : now ≤ event.time)
    (collected : ¬service.Collecting world used run event.time)
    (quiet : ∀ known, ¬InFlight world used run event.time known) :
    run.finish ≤ event.time ∧ (run.isCancelled = true → run.finish = event.time) := by
  have start : run.start = now := by
    rw [← is_run, start_run]
  have collected_le : service.collectedAt world used run ≤ event.time :=
    Nat.le_of_not_lt fun late => collected ⟨start ▸ early, late⟩
  rcases run_cases is_run with
    ⟨failure, -, rfl, not_cancelled⟩ | ⟨report, last, delivery, -, course, rfl⟩
  · exact ⟨collected_le, fun cancelled => absurd cancelled not_cancelled⟩
  · obtain ⟨finish_le, cancelled⟩ := course.finish_of_quiet positive collected_le (by
      intro n le started
      refine Nat.le_of_not_lt (fun unknown => ?_)
      exact quiet _ ⟨n, _, course.getElem?_attempts.2 ⟨le, rfl⟩, rfl, started, unknown⟩)
    refine ⟨finish_le, fun ended => ?_⟩
    obtain ⟨failures, result⟩ := isCancelled_iff.1 ended
    exact cancelled failures result

variable (event)

/-- An attempt starts after the shutdown only as the first one of a run that still collects. -/
theorem collecting_of_late {attempt : Attempt} (early : now ≤ event.time)
    (mem : attempt ∈ run.attempts) (late : event.time < attempt.start) :
    service.Collecting world used run event.time ∧ run.attempts = [attempt] ∧
      event.time < run.finish := by
  rcases run_cases is_run with
    ⟨failure, -, rfl, -⟩ | ⟨report, last, delivery, -, course, rfl⟩
  · cases mem
  · obtain ⟨n, le, rfl⟩ := course.mem_attempts.1 mem
    obtain ⟨rfl, finish⟩ := course.last_of_unknown positive le
      (Nat.lt_of_lt_of_le late (startAt_le_knownAt _ _ _ _ n))
    rcases Nat.eq_zero_or_pos last with rfl | pos
    · refine ⟨⟨early, late⟩, course.attempts_eq_cons, ?_⟩
      rw [finish]
      exact Nat.lt_of_lt_of_le late (startAt_le_knownAt _ _ _ _ 0)
    · exact absurd (course.start_le positive pos le) (Nat.not_le_of_lt late)

theorem countP_late_le_one (early : now ≤ event.time) :
    run.attempts.countP (event.time < ·.start) ≤ 1 := by
  rcases Nat.eq_zero_or_pos (run.attempts.countP (event.time < ·.start)) with none | some
  · rw [none]
    exact Nat.zero_le _
  · obtain ⟨attempt, mem, late⟩ := List.countP_pos_iff.1 some
    obtain ⟨-, only, -⟩ :=
      collecting_of_late event is_run positive early mem (of_decide_eq_true late)
    rw [only]
    exact List.countP_le_length

end Run

/-! ## What a shutdown leaves of the rounds -/

section Rounds

variable {period : Duration} {shutdown : Nat} {ties : Nat → Nat → Branch} {count : Nat}
variable {used : Usage} {acknowledged now due : Nat} {periodic : Periodic}

/-- No run starts after the request. -/
theorem Rounds.of_late
    (rounds : Rounds service world period (some ⟨shutdown, .requested⟩) ties count used
      acknowledged now due periodic) (late : shutdown ≤ now) :
    periodic.runs = [] ∧
      ∀ ending, periodic.ending = some ending → ending = ⟨now, acknowledged⟩ := by
  cases rounds with
  | unfinished => exact ⟨rfl, fun ending eq => (by cases eq)⟩
  | stopped stop =>
      obtain ⟨time, -⟩ := race_eq_stop stop
      rw [Nat.max_eq_left late] at time
      subst time
      exact ⟨rfl, fun ending eq => (Option.some.inj eq).symm⟩
  | noticed tick requested =>
      have time := time_of_noticed tick requested
      rw [Nat.max_eq_left late] at time
      subst time
      exact ⟨rfl, fun ending eq => (Option.some.inj eq).symm⟩
  | cancelled tick quiet _ | ran tick quiet _ _ =>
      have := lt_of_not_requested quiet
      have := le_of_race_timer tick
      omega

variable (rounds : Rounds service world period (some ⟨shutdown, .requested⟩) ties count used
  acknowledged now due periodic)

include rounds

/-- A run that is not over by the request is the last one, and the registration ends with it. -/
theorem Rounds.ending_of_overrun {before : Usage} {run : Run}
    (mem : (before, run) ∈ trail used periodic.runs) (overrun : shutdown < run.finish) :
    ∀ ending, periodic.ending = some ending → ending.time = run.finish := by
  intro ending ends
  induction rounds with
  | unfinished | stopped | noticed => cases mem
  | cancelled tick quiet ended =>
      obtain ⟨⟨⟩⟩ | mem := List.mem_cons.1 mem
      · cases ends
        rfl
      · cases mem
  | ran tick quiet goes_on rest ih =>
      obtain ⟨⟨⟩⟩ | mem := List.mem_cons.1 mem
      · obtain ⟨-, ending_eq⟩ := rest.of_late (Nat.le_of_lt overrun)
        rw [ending_eq ending ends]
      · exact ih mem ends

/-- Where every run is over by the request or ends with it, so does the registration. -/
theorem Rounds.ending_of_quiet
    (quiet : ∀ entry ∈ trail used periodic.runs, entry.2.finish ≤ shutdown ∧
      (entry.2.isCancelled = true → entry.2.finish = shutdown)) :
    ∀ ending, periodic.ending = some ending → ending.time = max now shutdown := by
  intro ending ends
  induction rounds with
  | unfinished => cases ends
  | stopped stop =>
      cases ends
      exact (race_eq_stop stop).1
  | noticed tick requested =>
      cases ends
      exact time_of_noticed tick requested
  | cancelled tick starts ended =>
      obtain ⟨-, finish⟩ := quiet _ List.mem_cons_self
      have := lt_of_not_requested starts
      have := le_of_race_timer tick
      cases ends
      exact (finish ended).trans (Nat.max_eq_right (by omega)).symm
  | ran tick starts goes_on rest ih =>
      obtain ⟨finish, -⟩ := quiet _ List.mem_cons_self
      have := lt_of_not_requested starts
      have := le_of_race_timer tick
      rw [ih (fun entry mem => quiet entry (List.mem_cons_of_mem _ mem)) ends]
      dsimp only at finish
      omega

/-- No more than one attempt starts after the request. -/
theorem Rounds.late_le_one (positive : 0 < service.publisher.policy.delay.nanos) :
    (periodic.runs.flatMap Run.attempts).countP (shutdown < ·.start) ≤ 1 := by
  induction rounds with
  | unfinished | stopped | noticed => exact Nat.zero_le _
  | cancelled tick starts ended =>
      rw [List.flatMap_cons, List.flatMap_nil, List.append_nil]
      have early := Nat.le_of_lt (lt_of_not_requested starts)
      exact countP_late_le_one ⟨shutdown, .requested⟩ rfl positive early
  | ran tick starts goes_on rest ih =>
      have early := Nat.le_of_lt (lt_of_not_requested starts)
      rw [List.flatMap_cons, List.countP_append]
      rcases Nat.eq_zero_or_pos (List.countP (shutdown < ·.start) (Run.attempts _)) with none | some
      · rw [none, Nat.zero_add]
        exact ih
      · -- a run with such an attempt overruns the request, so that no run follows
        obtain ⟨attempt, mem, late⟩ := List.countP_pos_iff.1 some
        obtain ⟨-, -, overrun⟩ := collecting_of_late ⟨shutdown, .requested⟩ rfl positive early mem
          (of_decide_eq_true late)
        rw [(rest.of_late (Nat.le_of_lt overrun)).1]
        exact countP_late_le_one ⟨shutdown, .requested⟩ rfl positive early

end Rounds

/-! ## The whole registration -/

/-- A registration of these runs, called with `used` behind it at a time, ends as the request asks
for. -/
structure StopsFor (service : Service) (world : World) (shutdown : Nat) (used : Usage) (now : Nat)
    (runs : List Run) (ending : Ending) : Prop where
  /-- A request before the call leaves nothing to do. -/
  none_after : shutdown ≤ now → runs = [] ∧ ending = ⟨now, 0⟩
  starts : ∀ run ∈ runs, run.start < shutdown
  late_le_one : (runs.flatMap Run.attempts).countP (shutdown < ·.start) ≤ 1
  /-- An attempt starts later only as the first one of a run that still collects. -/
  late_first : ∀ before run, (before, run) ∈ trail used runs → ∀ attempt ∈ run.attempts,
    shutdown < attempt.start →
      service.Collecting world before run shutdown ∧ run.attempts = [attempt]
  /-- Idle or in a retry wait the registration ends at once. -/
  at_once : (∀ before run, (before, run) ∈ trail used runs →
      ¬service.Collecting world before run shutdown ∧
        ∀ known, ¬InFlight world before run shutdown known) →
    ending.time = max now shutdown
  /-- An attempt under way is waited for. -/
  after_attempt : ∀ before run, (before, run) ∈ trail used runs → ∀ known,
    InFlight world before run shutdown known → ending.time = known
  /-- A collection under way is waited for, and the one attempt that it leads to. -/
  after_collection : ∀ before run, (before, run) ∈ trail used runs →
    service.Collecting world before run shutdown →
      (∃ failure, (service.collect world before).1 = .error failure ∧ run.attempts = [] ∧
          ending.time = service.collectedAt world before run) ∨
        ∃ report attempt, (service.collect world before).1 = .ok report ∧
          run.attempts = [attempt] ∧ attempt.start = service.collectedAt world before run ∧
          ending.time = attempt.start + (world.replies before.submissions).latency

/-- A periodic registration that is given the rounds due before a request ends, and does as the
request asks for, whichever of a tick and the request is taken where both are there. -/
theorem periodic_stopsFor (service : Service) (world : World) (period : Duration) (shutdown : Nat)
    (ties : Nat → Nat → Branch) (count : Nat) (used : Usage) (now : Nat)
    (period_pos : 0 < period.nanos) (delay_pos : 0 < service.publisher.policy.delay.nanos)
    (enough : roundsUntil period ⟨shutdown, .requested⟩ now ≤ count) :
    ∃ runs ending, service.periodic world period (some ⟨shutdown, .requested⟩) ties count used now =
        .ok ⟨runs, some ending⟩ ∧
      StopsFor service world shutdown used now runs ending := by
  obtain ⟨runs, ending, eq⟩ :=
    service.exists_ending world period ties shutdown count 0 now used period_pos enough
  have rounds := service.rounds_spec world period (some ⟨shutdown, .requested⟩) ties count used 0
    now (Duration.ofMillis now).nanos
  rw [eq] at rounds
  refine ⟨runs, ending, ?_, ?_⟩
  · have : period.isZero = false := decide_eq_false (Nat.ne_of_gt period_pos)
    rw [periodic, this, eq]
    rfl
  have is_run : ∀ {before run}, (before, run) ∈ trail used runs →
      service.run world (some ⟨shutdown, .requested⟩) (ties before.runs) before run.start = run :=
    fun mem => (rounds.of_mem_trail mem).1.symm
  have starts : ∀ {before run}, (before, run) ∈ trail used runs → run.start < shutdown :=
    fun mem => lt_of_not_requested (rounds.of_mem_trail mem).2
  have overrun : ∀ {before run}, (before, run) ∈ trail used runs → shutdown < run.finish →
      ending.time = run.finish :=
    fun mem late => rounds.ending_of_overrun mem late ending rfl
  constructor
  case none_after =>
    intro late
    obtain ⟨none, ending_eq⟩ := rounds.of_late late
    exact ⟨none, ending_eq ending rfl⟩
  case starts =>
    intro run mem
    obtain ⟨before, mem⟩ := exists_mem_trail used mem
    exact starts mem
  case late_le_one => exact rounds.late_le_one delay_pos
  case late_first =>
    intro before run mem attempt made late
    obtain ⟨collecting, only, -⟩ :=
      collecting_of_late _ (is_run mem) delay_pos (Nat.le_of_lt (starts mem)) made late
    exact ⟨collecting, only⟩
  case at_once =>
    intro quiet
    refine rounds.ending_of_quiet ?_ ending rfl
    rintro ⟨before, run⟩ mem
    obtain ⟨collected, answered⟩ := quiet before run mem
    exact finish_of_quiet (is_run mem) delay_pos (Nat.le_of_lt (starts mem)) collected answered
  case after_attempt =>
    intro before run mem known inFlight
    have finish := finish_of_inFlight (is_run mem) delay_pos inFlight
    obtain ⟨-, -, -, -, -, unknown⟩ := inFlight
    rw [overrun mem (by omega), finish]
  case after_collection =>
    intro before run mem collecting
    have late := collecting.2
    rcases finish_of_collecting (is_run mem) delay_pos collecting with
      ⟨failure, collected, none, finish⟩ | ⟨report, attempt, collected, only, start, finish⟩
    · refine .inl ⟨failure, collected, none, ?_⟩
      rw [overrun mem (by omega), finish]
    · refine .inr ⟨report, attempt, collected, only, start, ?_⟩
      rw [overrun mem (by omega), finish]

/-- Against a service that is not there, a request at 30 finds the third of three attempts still to
come. -/
theorem periodic_stopsFor_in_retry_wait :
    let service : Service :=
      ⟨[.etcd], ⟨"http://127.0.0.1:5000/discovery", .fixed 3 (.ofMillis 20)⟩⟩
    let world : World :=
      ⟨fun _ _ => ⟨.error (.notInstalled "etcd"), 1⟩, fun _ => ⟨.ok [], .ok ⟨"", ""⟩⟩,
        .refuseAll 2, .exact⟩
    0 < (Duration.ofMillis 10).nanos ∧ 0 < service.publisher.policy.delay.nanos ∧
      roundsUntil (.ofMillis 10) ⟨30, .requested⟩ 0 ≤ 5 ∧
      ∃ runs ending, service.periodic world (.ofMillis 10) (some ⟨30, .requested⟩)
          (fun _ _ => .timer) 5 .none 0 = .ok ⟨runs, some ending⟩ ∧
        StopsFor service world 30 .none 0 runs ending := by
  intro service world
  have period_pos : 0 < (Duration.ofMillis 10).nanos := by decide
  have delay_pos : 0 < service.publisher.policy.delay.nanos := by decide
  have enough : roundsUntil (.ofMillis 10) ⟨30, .requested⟩ 0 ≤ 5 := by decide
  exact ⟨period_pos, delay_pos, enough, periodic_stopsFor service world (.ofMillis 10) 30
    (fun _ _ => .timer) 5 .none 0 period_pos delay_pos enough⟩

end NodeInventory.Service
