import NodeInventory.Command.Basic
import NodeInventory.Failure

/-!
# Collecting an inventory

Every tool is asked once, all at the same time, and each answer goes to the place of its question
when it arrives.  A tool without a version is left out of the report and never fails the collection;
an unreadable interface list or boot identity does.
-/

namespace NodeInventory

open Command

/-- What became of one tool. -/
inductive Outcome
  | found (version : String)
  | notInstalled
  | invocationFailed (reason : String)
  | unrecognized
  | invalidRule (reason : String)
deriving DecidableEq, Repr

def exitText : Option Int → String
  | some code => "exit code Some(" ++ toString code ++ ")"
  | none => "exit code None"

namespace Outcome

/-- What a clean run shows, read from both of its streams. -/
def ofOutput (tool : Tool) (output : Output) : Outcome :=
  match tool.rule.extract output.combined with
  | .ok (some version) => .found version
  | .ok none => .unrecognized
  | .error error => .invalidRule error.message

def ofResult (tool : Tool) : Command.Result → Outcome
  | .error (.notInstalled _) => .notInstalled
  | .error error => .invocationFailed error.message
  | .ok output =>
      if output.status = .failed then .invocationFailed (exitText output.exitCode)
      else ofOutput tool output

def version? : Outcome → Option String
  | .found version => some version
  | _ => none

end Outcome

/-- What became of each tool, in the order in which they were asked. -/
abbrev Outcomes := List (Tool × Outcome)

namespace Outcomes

/-- The versions found, by the canonical names of their tools. -/
def versions (outcomes : Outcomes) : Versions :=
  .ofList (outcomes.filterMap fun entry => entry.2.version?.map (entry.1.name, ·))

def outcome? (outcomes : Outcomes) (tool : Tool) : Option Outcome := outcomes.lookup tool

end Outcomes

/-- Runs a command and notes it; `before` runs were made before the first one noted. -/
def Command.Runner.call (runner : Runner) (before : Nat) (invocation : Invocation) :
    StateM (List Invocation) Reply := fun calls =>
  (runner (before + calls.length) invocation, calls ++ [invocation])

/-- What the tools of a list reply, each at its place. -/
abbrev ToolReplies := List (Tool × Reply)

/-- Starts the commands of the tools, one after the other. -/
def ask (runner : Runner) (before : Nat) (tools : List Tool) :
    StateM (List Invocation) ToolReplies :=
  tools.mapM fun tool => return (tool, ← runner.call before tool.invocation)

namespace ToolReplies

variable (replies : ToolReplies)

/-- The milliseconds until the reply at a place is there. -/
def delayAt (i : Nat) : Nat := (replies[i]?.map fun entry => entry.2.delay).getD 0

/-- Puts a place behind those whose replies are there no later. -/
def enqueue (i : Nat) : List Nat → List Nat
  | [] => [i]
  | j :: places =>
      if replies.delayAt i < replies.delayAt j then i :: j :: places else j :: enqueue i places

/-- The places in the order in which the replies arrive. -/
def arrivals : List Nat :=
  (List.range replies.length).foldl (fun places i => replies.enqueue i places) []

/-- A table with a place for each question; the reply to the one at `i` arrives. -/
def arrive (table : List (Option (Tool × Outcome))) (i : Nat) : List (Option (Tool × Outcome)) :=
  table.set i <| replies[i]?.map fun entry => (entry.1, Outcome.ofResult entry.1 entry.2.result)

/-- The table after the replies at some places have arrived, one by one. -/
def gather (order : List Nat) : List (Option (Tool × Outcome)) :=
  order.foldl replies.arrive (List.replicate replies.length none)

end ToolReplies

/-- A round of questions to the tools: the commands in the order of their start, what became of
each tool, and the milliseconds until the last answer. -/
structure Survey where
  calls : List Invocation
  outcomes : Outcomes
  elapsed : Nat
deriving DecidableEq, Repr

/-- Asks the tools; the runner has answered `before` runs already. -/
def survey (runner : Runner) (before : Nat) (tools : List Tool) : Survey :=
  let (replies, calls) := (ask runner before tools).run []
  { calls
    outcomes := (replies.gather replies.arrivals).filterMap id
    elapsed := (replies.map fun entry => entry.2.delay).foldl max 0 }

/-- The report of a node with the given versions; the interfaces are read before the boot record. -/
def assemble (probe : Probe) (versions : Versions) : Except Failure Report :=
  match probe.interfaces with
  | .error error => .error (.probe error)
  | .ok interfaces =>
      match probe.boot with
      | .error error => .error (.probe error)
      | .ok boot =>
          match Report.of interfaces boot versions with
          | .error error => .error (.inventory error)
          | .ok report => .ok report

/-- A report, or why there is none, and the round of questions behind it. -/
def collect (runner : Runner) (before : Nat) (tools : List Tool) (probe : Probe) :
    Except Failure Report × Survey :=
  let survey := survey runner before tools
  (assemble probe survey.outcomes.versions, survey)

end NodeInventory
