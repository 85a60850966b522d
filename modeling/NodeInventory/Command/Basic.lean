import NodeInventory.Duration
import NodeInventory.Tool

/-!
# Running commands

What a command run comes to: an output with its exit status, or the reason why there is none.
-/

namespace NodeInventory.Command

inductive Status
  | success
  | failed
deriving DecidableEq, Repr

structure Output where
  status : Status
  /-- Absent when a signal ended the program. -/
  exitCode : Option Int
  stdout : String
  stderr : String
deriving DecidableEq, Repr

/-- Both streams, standard output first; an empty one leaves no line behind. -/
def Output.combined (output : Output) : String :=
  if output.stderr = "" then output.stdout
  else if output.stdout = "" then output.stderr
  else output.stdout ++ "\n" ++ output.stderr

inductive RunError
  | notInstalled (program : String)
  | spawnFailed (reason : String)
  | timeout (ms : Int)
  | io (reason : String)
deriving DecidableEq, Repr

def RunError.message : RunError → String
  | .notInstalled program => "Program not installed: " ++ program
  | .spawnFailed reason => "Spawn failed: " ++ reason
  | .timeout ms => "Process timeout after " ++ toString ms ++ "ms"
  | .io reason => "IO error: " ++ reason

abbrev Result := Except RunError Output

/-- A result and the milliseconds it takes. -/
structure Reply where
  result : Result
  delay : Nat
deriving Repr

/-- What answers command runs: the number of runs before this one, and its invocation. -/
abbrev Runner := Nat → Invocation → Reply

end NodeInventory.Command
