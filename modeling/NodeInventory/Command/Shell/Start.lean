import NodeInventory.Command.Shell.Eval

/-!
# Starting the shell and the few other programs
-/

namespace NodeInventory.Command

namespace Shell

/-- The bytes of a text, each as a character. -/
def ofText (text : String) : List Char :=
  (Text.Utf8.encode text.toList).map fun byte => Char.ofNat byte.toNat

def toBytes (text : List Char) : List UInt8 := text.map fun c => UInt8.ofNat c.toNat

/-- How deep the commands of a script may nest. -/
def depth : Nat := 1000000

/-- More commands than a script runs that ends in time. -/
def plenty : Nat := 1000000

/-- The number of the first process. -/
def firstProcess : Nat := 4242

/-- The sinks of standard output and standard error. -/
def standardOutput : Nat := 0

def standardError : Nat := 1

def State.start (files : Files) (environment : Environment) : State where
  name := []
  arguments := []
  bindings := environment.map fun entry => ⟨ofText entry.1, some (ofText entry.2), true, false⟩
  hidden := []
  functions := []
  options := []
  traps := []
  status := 0
  substituted := 0
  trapped := none
  process := firstProcess
  shell := firstProcess
  parent := firstProcess - 1
  owners := []
  lastJob := none
  reaped := 0
  descriptors := [(0, .nothing), (1, .sink standardOutput), (2, .sink standardError)]
  kept := []
  line := 0
  reached := 0
  command := none
  loops := 0
  calls := 0
  optionAt := (1, none)
  working := files.working
  route := pathOf files.working
  files := files
  contents := []
  now := 0
  budget := plenty
  fresh := firstProcess + 1
  written := []
  supplies := []
  handles := []
  held := []
  jobs := []
  signals := []
  documents := []
  documentCount := 0

/-- The process that runs a program.  It lasts as long as anything holds its outputs open; starting
it takes a millisecond. -/
def process (files : Files) (environment : Environment) (path : String)
    (words : List String) : Process :=
  let (result, after) :=
    Run.program depth path (words.map ofText) (State.start files environment)
  let written (sink : Nat) : List UInt8 :=
    toBytes ((after.textOf sink).map fun entry => entry.2).flatten
  let exit : Exit := match result with
    | .error (.killed signal) => .signal signal
    | _ => .code (after.status % 256)
  let last := max after.now (max (after.heldUntil standardOutput) (after.heldUntil standardError))
  let endless := result matches .error .endless || never ≤ last
  ⟨if endless then none else some (1 + last / 1000),
    ⟨exit, written standardOutput, written standardError⟩⟩

end Shell

/-- Starts the programs among some files. -/
def Files.spawner (files : Files) : Spawner := fun invocation environment => do
  let program := invocation.program
  if (program :: invocation.args).any fun text => text.toList.contains '\x00' then throw .nulByte
  let searchPath := ((environment.find? fun entry => entry.1 = "PATH").map (·.2)).getD usualPath
  let path ← files.lookUp searchPath program
  return Shell.process files environment path (program :: invocation.args)

end NodeInventory.Command
