import NodeInventory.Proofs.Registration.Rounds

/-!
# The pace of a periodic registration

Ticks come a period apart, and a run that is behind its tick by more than the tolerance moves all
ticks after it.  So runs follow each other at the pace of the period, however long single ones take:
none comes early, and a long one is not made up for by a burst of short waits.
-/

namespace NodeInventory

open Shutdown

/-- In whole milliseconds, a tick that is more than five late moves those after it. -/
theorem nextDue_ofMillis (period due taken : Nat) :
    nextDue (Duration.ofMillis period).nanos (Duration.ofMillis due).nanos
        (Duration.ofMillis taken).nanos =
      (Duration.ofMillis (if taken ≤ due + 5 then due + period else taken + period)).nanos := by
  have in_time_iff : (Duration.ofMillis taken).nanos ≤ (Duration.ofMillis due).nanos + 5000000 ↔
      taken ≤ due + 5 := by
    simp only [Duration.ofMillis_nanos]
    omega
  unfold nextDue
  by_cases in_time : taken ≤ due + 5
  · rw [if_pos in_time, if_pos (in_time_iff.2 in_time)]
    exact (Nat.add_mul ..).symm
  · rw [if_neg in_time, if_neg (mt in_time_iff.1 in_time)]
    exact (Nat.add_mul ..).symm

/-- Runs at ticks a period apart, all in milliseconds: the first tick is due at `due` and waited for
from `now` on. -/
structure Paced (period now due : Nat) (runs : List Run) : Prop where
  first : ∀ run, runs.head? = some run → run.start = max now due
  not_early : ∀ k run, runs[k]? = some run → due + k * period ≤ run.start
  /-- Runs do not overlap. -/
  after_finish : ∀ k run next, runs[k]? = some run → runs[k + 1]? = some next →
    run.finish ≤ next.start
  /-- No run is made up for, but for the tolerance of a tick. -/
  no_burst : ∀ k run next, runs[k]? = some run → runs[k + 1]? = some next →
    run.start + period ≤ next.start + 5
  /-- Runs that are over by the next tick keep those after them on time. -/
  on_time : now ≤ due → ∀ k run, runs[k]? = some run →
    (∀ before ∈ runs.take k, before.finish ≤ before.start + period) → run.start = due + k * period

namespace Paced

variable {period now due : Nat} {run : Run} {runs : List Run}

theorem nil : Paced period now due [] := by
  constructor <;> simp

/-- A run taken at its tick keeps the pace, if those after it keep the one that the tick sets. -/
theorem cons (start : run.start = max now due)
    (rest : Paced period run.finish
      (if run.start ≤ due + 5 then due + period else run.start + period) runs) :
    Paced period now due (run :: runs) := by
  -- the next tick is due a period after this one, or after the run where that was late
  obtain ⟨next, next_eq⟩ : ∃ next,
      next = if run.start ≤ due + 5 then due + period else run.start + period := ⟨_, rfl⟩
  rw [← next_eq] at rest
  have due_le : due ≤ run.start := by
    rw [start]
    exact Nat.le_max_right _ _
  have later : due + period ≤ next := by
    rw [next_eq]
    split <;> omega
  have spaced : run.start + period ≤ next + 5 := by
    rw [next_eq]
    split <;> omega
  constructor
  case first =>
    rintro _ ⟨⟩
    exact start
  case not_early =>
    rintro (_ | k) other at_k
    · cases at_k
      rw [Nat.zero_mul]
      exact due_le
    · have := rest.not_early k other at_k
      rw [Nat.succ_mul]
      omega
  case after_finish =>
    rintro (_ | k) one other at_k at_succ
    · cases at_k
      rw [rest.first other (List.head?_eq_getElem?.trans at_succ)]
      exact Nat.le_max_left _ _
    · exact rest.after_finish k one other at_k at_succ
  case no_burst =>
    rintro (_ | k) one other at_k at_succ
    · cases at_k
      have := rest.not_early 0 other at_succ
      omega
    · exact rest.no_burst k one other at_k at_succ
  case on_time =>
    rintro waiting (_ | k) other at_k short
    · cases at_k
      rw [start, Nat.zero_mul]
      exact Nat.max_eq_right waiting
    · have on_tick : run.start = due := start.trans (Nat.max_eq_right waiting)
      have next_on_tick : next = due + period := by
        rw [next_eq, if_pos (by omega)]
      have short_run : run.finish ≤ run.start + period := short run List.mem_cons_self
      have := rest.on_time (by omega) k other at_k
        fun before mem => short before (List.mem_cons_of_mem _ mem)
      rw [Nat.succ_mul]
      omega

end Paced

namespace Service

variable {service : Service} {world : World} {event : Option Event} {ties : Nat → Nat → Branch}

/-- Every registration with a period of whole milliseconds is paced by it. -/
theorem Rounds.paced {period count : Nat} {used : Usage} {acknowledged now nanos : Nat}
    {periodic : Periodic}
    (rounds : Rounds service world (.ofMillis period) event ties count used acknowledged now nanos
      periodic) {due : Nat} (whole : nanos = (Duration.ofMillis due).nanos) :
    Paced period now due periodic.runs := by
  induction rounds generalizing due with
  | unfinished | stopped | noticed => exact .nil
  | cancelled tick quiet ended =>
      subst whole
      refine .cons ?_ .nil
      rw [start_run, time_of_race_timer tick]
      exact congrArg _ (Duration.ticks_ofMillis due)
  | ran tick quiet goes_on rest ih =>
      subst whole
      refine .cons ?_ (ih ?_)
      · rw [start_run, time_of_race_timer tick]
        exact congrArg _ (Duration.ticks_ofMillis due)
      · rw [start_run]
        exact nextDue_ofMillis ..

/-- The runs of a registration are paced by its period, however long each of them takes; without a
shutdown none is left out. -/
theorem periodic_paced (service : Service) (world : World) (period : Nat) (event : Option Event)
    (ties : Nat → Nat → Branch) (count : Nat) (used : Usage) (now : Nat) (period_pos : 0 < period) :
    ∃ runs ending, service.periodic world (.ofMillis period) event ties count used now =
        .ok ⟨runs, ending⟩ ∧
      (event = none → runs.length = count) ∧ Paced period now now runs := by
  have positive : 0 < (Duration.ofMillis period).nanos := by
    rw [Duration.ofMillis_nanos]
    omega
  have rounds := service.rounds_spec world (.ofMillis period) event ties count used 0 now
    (Duration.ofMillis now).nanos
  refine ⟨_, _, service.periodic_of_pos world positive event ties count used now, ?_,
    rounds.paced rfl⟩
  rintro rfl
  refine rounds.length_runs (Option.eq_none_iff_forall_ne_some.2 fun ending ends => ?_)
  obtain ⟨stop, eq, -⟩ := rounds.stop_of_ending ends
  cases eq

/-- A first run of 27 moves the ticks of a registration every 10. -/
theorem periodic_paced_after_long_run :
    let service : Service :=
      ⟨[.etcd], ⟨"http://127.0.0.1:5000/discovery", .fixed 3 (.ofMillis 20)⟩⟩
    let world : World :=
      ⟨fun n _ => ⟨.error (.notInstalled "etcd"), if n = 0 then 27 else 3⟩,
        fun _ => ⟨.ok [], .ok ⟨"", ""⟩⟩, .refuseThenAccept 0 0, .exact⟩
    0 < 10 ∧ ∃ runs ending,
      service.periodic world (.ofMillis 10) none (fun _ _ => .timer) 4 .none 0 =
        .ok ⟨runs, ending⟩ ∧
      ((none : Option Event) = none → runs.length = 4) ∧ Paced 10 0 0 runs := by
  intro service world
  exact ⟨by decide,
    periodic_paced service world 10 none (fun _ _ => .timer) 4 .none 0 (by decide)⟩

end Service

end NodeInventory
