import NodeInventory.Collection

/-!
# Registering a node

A run collects a report and delivers it.  The periodic registration starts a run at every tick of
an interval until a shutdown; a failed run never ends it.
-/

namespace NodeInventory

open Command Shutdown Transport

/-- All that answers a service: its commands and submissions by their number, the probe by the
number of the collection, and the timer of its retry waits. -/
structure World where
  runner : Runner
  probe : Nat → Probe
  replies : Transport.Replies
  timer : Timer

/-- How much of a world is used up. -/
structure Usage where
  runs : Nat
  collections : Nat
  commands : Nat
  submissions : Nat
deriving DecidableEq, Repr

def Usage.none : Usage := ⟨0, 0, 0, 0⟩

structure Service where
  tools : List Tool
  publisher : Publisher
deriving DecidableEq, Repr

/-- One run, from its start to its end. -/
structure Run where
  start : Nat
  calls : List Invocation
  attempts : List Attempt
  result : Except Failure Ack
  finish : Nat
deriving Repr

namespace Run

def isAcknowledged (run : Run) : Bool := run.result.toBool

/-- Whether a shutdown ended the run. -/
def isCancelled (run : Run) : Bool :=
  match run.result with
  | .error (.delivery (.cancelled _)) => true
  | _ => false

end Run

def Usage.afterRun (used : Usage) (run : Run) : Usage where
  runs := used.runs + 1
  collections := used.collections + 1
  commands := used.commands + run.calls.length
  submissions := used.submissions + run.attempts.length

namespace Service

variable (service : Service) (world : World)

def collect (used : Usage) : Except Failure Report × Survey :=
  NodeInventory.collect world.runner used.commands service.tools (world.probe used.collections)

def run (event : Option Event) (tie : Nat → Branch) (used : Usage) (now : Nat) : Run :=
  let (report, survey) := service.collect world used
  let collected := now + survey.elapsed
  match report with
  | .error failure => ⟨now, survey.calls, [], .error failure, collected⟩
  | .ok report =>
      let delivery := service.publisher.publishUntil world.timer report
        (world.replies.drop used.submissions) event tie collected
      ⟨now, survey.calls, delivery.attempts, delivery.result.mapError .delivery, delivery.finish⟩

/-- A run that no shutdown ends. -/
def runOnce (used : Usage) (now : Nat) : Run :=
  service.run world none (fun _ => .timer) used now

end Service

/-- The deadline after the one at `due`, in nanoseconds, when that tick is taken at `taken`.  A tick
that is more than five milliseconds late moves those after it. -/
def nextDue (period due taken : Nat) : Nat :=
  if taken ≤ due + 5000000 then due + period else taken + period

inductive PeriodError
  | zero
deriving DecidableEq, Repr

/-- The end of a periodic registration. -/
structure Ending where
  time : Nat
  acknowledged : Nat
deriving DecidableEq, Repr

/-- A periodic registration: its runs, and its end unless it still goes on. -/
structure Periodic where
  runs : List Run
  ending : Option Ending
deriving Repr

namespace Service

variable (service : Service) (world : World)

/-- The rounds from one on.  `ties round 0` settles the race between a tick and a shutdown, and
`ties round n` the one after the `n`-th failure of that round's run. -/
def rounds (period : Duration) (event : Option Event) (ties : Nat → Nat → Branch) :
    (count : Nat) → (used : Usage) → (acknowledged now due : Nat) → Periodic
  | 0, _, _, _, _ => ⟨[], none⟩
  | count + 1, used, acknowledged, now, due =>
      match race (ties used.runs 0) now (Duration.ticks ⟨due⟩) event with
      | (.stop, time) => ⟨[], some ⟨time, acknowledged⟩⟩
      | (.timer, time) =>
          if (channelAt event time).requested then ⟨[], some ⟨time, acknowledged⟩⟩
          else
            let run := service.run world event (ties used.runs) used time
            if run.isCancelled then ⟨[run], some ⟨run.finish, acknowledged⟩⟩
            else
              let later := rounds period event ties count (used.afterRun run)
                (acknowledged + if run.isAcknowledged then 1 else 0) run.finish
                (nextDue period.nanos due (Duration.ofMillis time).nanos)
              { later with runs := run :: later.runs }

/-- A periodic registration of at most `count` rounds, the first tick of which comes at once. -/
def periodic (period : Duration) (event : Option Event) (ties : Nat → Nat → Branch) (count : Nat)
    (used : Usage) (now : Nat) : Except PeriodError Periodic :=
  if period.isZero then .error .zero
  else .ok (service.rounds world period event ties count used 0 now (Duration.ofMillis now).nanos)

/-- No more ticks than these are due before a shutdown. -/
def roundsUntil (period : Duration) (event : Event) (now : Nat) : Nat :=
  (Duration.ofMillis (event.time - now)).nanos / period.nanos + 2

end Service

end NodeInventory
