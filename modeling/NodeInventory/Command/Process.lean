import NodeInventory.Command.Basic
import NodeInventory.Text.Utf8

/-!
# Commands as processes

A command runs with no more of the environment than is allowed, and within a limit.  What it writes
is read as UTF-8, with a replacement character for every invalid run.
-/

namespace NodeInventory.Command

open Text

inductive Exit
  | code (n : Nat)
  | signal (n : Nat)
deriving DecidableEq, Repr

/-- The end of a process and what it has written. -/
structure Ended where
  exit : Exit
  stdout : List UInt8
  stderr : List UInt8
deriving DecidableEq, Repr

/-- Why a process cannot be started. -/
inductive SpawnError
  | notFound
  | permissionDenied
  | notDirectory
  | nameTooLong
  | nulByte
deriving DecidableEq, Repr

def SpawnError.message : SpawnError → String
  | .notFound => "No such file or directory (os error 2)"
  | .permissionDenied => "Permission denied (os error 13)"
  | .notDirectory => "Not a directory (os error 20)"
  | .nameTooLong => "File name too long (os error 36)"
  | .nulByte => "nul byte found in provided data"

abbrev Environment := List (String × String)

/-- A started process: the milliseconds it takes, unless it never ends, and its end. -/
structure Process where
  millis : Option Nat
  ended : Ended
deriving DecidableEq, Repr

/-- What starts processes. -/
abbrev Spawner := Invocation → Environment → Except SpawnError Process

namespace Ended

def output (ended : Ended) : Output where
  status := if ended.exit = .code 0 then .success else .failed
  exitCode := match ended.exit with
    | .code n => some n
    | .signal _ => none
  stdout := String.ofList (Utf8.decodeLossy ended.stdout)
  stderr := String.ofList (Utf8.decodeLossy ended.stderr)

end Ended

/-- Runs commands as processes. -/
structure ProcessRunner where
  allowed : List String
  limit : Duration
deriving DecidableEq, Repr

namespace ProcessRunner

variable (runner : ProcessRunner)

/-- The part of an environment that commands get to see. -/
def visible (environment : Environment) : Environment :=
  environment.filter fun entry => runner.allowed.contains entry.1

def run (spawner : Spawner) (environment : Environment) (invocation : Invocation) : Result :=
  match spawner invocation (runner.visible environment) with
  | .error .notFound => .error (.notInstalled invocation.program)
  | .error error => .error (.spawnFailed error.message)
  | .ok process =>
      if process.millis.any fun millis => Duration.ofMillis millis ≤ runner.limit then
        .ok process.ended.output
      else .error (.timeout runner.limit.millis)

end ProcessRunner

end NodeInventory.Command
