import NodeInventory.Command.Shell.Switch

/-!
# Jobs

Processes in the background are the jobs of the process that has started them.  Each has a number by
which the script knows it, the least that is free; a job that the script has waited for gives up its
number as soon as another process needs one.
-/

namespace NodeInventory.Command.Shell

/-- Microseconds until a new process starts. -/
def startTime : Nat := 300

namespace Job

variable (job : Job)

def hasEnded (time : Nat) : Bool := job.ended.any (· ≤ time)

/-- Whether a job is still what has started it: signals do the same to both. -/
def isStarting (time : Nat) : Bool := time < job.begun + startTime

end Job

/-- The jobs of a process, the latest first. -/
def State.ownJobs (state : State) : List Job :=
  let own := state.jobs.filter fun job => job.start.parent == state.process
  own.mergeSort fun a b => b.number ≤ a.number

namespace Run

/-- Takes the number for a new job. -/
def claimSlot : Run Nat := do
  let state ← get
  if state.jobs.isEmpty then return 1
  let own := state.ownJobs
  let isTaken (slot : Nat) : Bool := own.any fun job => job.slot = slot && !job.awaited
  let slots := (List.range (own.length + 1)).map (· + 1)
  let slot := (slots.find? fun slot => !isTaken slot).getD 1
  let freed := (own.filter (·.slot = slot)).map (·.number)
  set { state with jobs := state.jobs.filter fun job => !freed.contains job.number }
  return slot

/-- Looks for children that have ended. -/
def reap : Run Unit := modify fun state => { state with reaped := state.now }

/-- The job that a word with a percent sign means. -/
def jobOf (word : List Char) : Run Job := do
  let own := (← get).ownJobs
  let found (job? : Option Job) (reason : List Char) : Run Job :=
    match job? with
    | some job => return job
    | none => fail reason
  match word with
  | ['%'] | ['%', '%'] | ['%', '+'] => found own[0]? "No current job".toList
  | ['%', '-'] => found own[1]? "No previous job".toList
  | _ =>
      let slot? := if word.head? = some '%' then Integer.count? word.tail else none
      found (own.find? fun job => some job.slot = slot?) ("No such job: ".toList ++ word)

end Run

end NodeInventory.Command.Shell
