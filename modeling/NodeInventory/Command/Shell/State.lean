import NodeInventory.Command.Files
import NodeInventory.Command.Shell.Echo
import NodeInventory.Command.Shell.Field
import NodeInventory.Command.Shell.Signal
import NodeInventory.Command.Shell.Syntax

/-!
# What a running script has done so far

Every process of a script has a context of its own, which a process that it starts gets a copy of.
All of them share one world: a clock, what has been written, files and signals.  A job in the
background is run to its end as soon as it starts, on a clock of its own; what it writes is put in
order by time.
-/

namespace NodeInventory.Command.Shell

/-- Why the steps of a process end early. -/
inductive Stop
  /-- The process ends with the status that is set. -/
  | exited
  /-- An error, which ends the process unless a command takes it up. -/
  | failed
  | killed (signal : Nat)
  | endless
  /-- So many loops are left. -/
  | left (loops : Nat)
  /-- The last of so many loops has its next turn. -/
  | turned (loops : Nat)
  | returned
deriving DecidableEq, Repr

/-- What an open descriptor leads to. -/
inductive Channel
  | nothing
  | full
  | zeros
  | directory
  /-- What is written there. -/
  | sink (number : Nat)
  /-- What can be read there. -/
  | source (number : Nat)
  | file (handle : Nat)
deriving DecidableEq, Repr

abbrev Descriptors := List (Nat × Channel)

/-- What a redirection does to a descriptor, once its word is known. -/
inductive Opening
  | path (kind : RedirectKind) (path : List Char)
  /-- A copy of a descriptor, or none. -/
  | copy (source : Option Nat)
  | document (number : Nat)
deriving DecidableEq, Repr

/-- A variable; one without a value may be exported all the same. -/
structure Variable where
  name : List Char
  value : Option (List Char)
  exported : Bool
  readonly : Bool
deriving DecidableEq, Repr

/-- What a function or command has made local, as it was before. -/
structure Hidden where
  bindings : List (List Char × Option Variable)
  options : Option (List String)
deriving DecidableEq, Repr

/-- The state of a process. -/
structure Context where
  name : List Char
  arguments : List (List Char)
  /-- Of two variables with one name the first counts. -/
  bindings : List Variable
  /-- Of the functions and commands being run, the innermost first. -/
  hidden : List Hidden
  functions : List (List Char × Node)
  /-- The letters or names of the options that are on. -/
  options : List String
  /-- What is done on a signal; nothing is done for an empty text. -/
  traps : List (Nat × List Char)
  status : Nat
  /-- The status of the last command that was run for its output. -/
  substituted : Nat
  /-- The status from before a signal, while the script acts on it. -/
  trapped : Option Nat
  process : Nat
  /-- The process that the script takes for itself. -/
  shell : Nat
  parent : Nat
  /-- The jobs that this process is a part of. -/
  owners : List Nat
  lastJob : Option Nat
  /-- When this process last looked for children that have ended. -/
  reaped : Nat
  descriptors : Descriptors
  /-- Descriptors that are open again after a redirected command. -/
  kept : List Descriptors
  /-- The line of the command being run. -/
  line : Nat
  /-- The line up to which the script has been read. -/
  reached : Nat
  /-- The command that complaints are made for. -/
  command : Option (List Char)
  loops : Nat
  /-- How many functions are being run. -/
  calls : Nat
  /-- The argument whose options are read, and the place within it. -/
  optionAt : Nat × Option Nat
  /-- The directory that relative paths start in. -/
  working : List String
  /-- The path by which the script has come there. -/
  route : List Char

/-- A text written at a time. -/
structure Written where
  sink : Nat
  time : Nat
  owners : List Nat
  text : List Char
deriving DecidableEq, Repr

/-- Texts by when they can be read, and when there is no more; never without such a time. -/
structure Supply where
  texts : List (Nat × List Char)
  closes : Option Nat
deriving DecidableEq, Repr

structure Handle where
  path : List String
  position : Nat
  atEnd : Bool
deriving DecidableEq, Repr

structure SentSignal where
  time : Nat
  target : Nat
  signal : Nat
  owners : List Nat
deriving DecidableEq, Repr

/-- A process in the background. -/
structure Job where
  number : Nat
  start : Context
  body : Node
  openings : List (Nat × Opening)
  begun : Nat
  /-- The number by which the script knows it. -/
  slot : Nat
  /-- Whether the script has waited for it. -/
  awaited : Bool
  /-- Absent for a job that never ends. -/
  ended : Option Nat
  status : Nat
  killed : Option Nat

structure State extends Context where
  files : Files
  contents : List (List String × List Char)
  /-- Microseconds since the start. -/
  now : Nat
  /-- How many more commands are run before a script is taken for endless. -/
  budget : Nat
  /-- The next number of a process, a sink, a source or a handle. -/
  fresh : Nat
  /-- The last text first. -/
  written : List Written
  supplies : List (Nat × Supply)
  handles : List (Nat × Handle)
  /-- Until when the sinks are held open. -/
  held : List (Nat × Nat × List Nat)
  jobs : List Job
  signals : List SentSignal
  /-- Documents of redirections by their numbers. -/
  documents : List (Nat × Word)
  documentCount : Nat

/-- Steps of a process: they change the state, and may end early. -/
abbrev Run := ExceptT Stop (StateM State)

/-- The sinks that some descriptors lead to. -/
def sinksOf (descriptors : Descriptors) : List Nat :=
  descriptors.filterMap fun entry =>
    match entry.2 with
    | .sink number => some number
    | _ => none

/-- The path of a place. -/
def pathOf (place : List String) : List Char :=
  '/' :: List.intercalate ['/'] (place.map String.toList)

/-- A time, in microseconds, that no process in time gets to. -/
def never : Nat := 1000000000000000

/-- Sets a key of a list of pairs. -/
def setEntry {β : Type} (key : Nat) (value : β) (entries : List (Nat × β)) : List (Nat × β) :=
  (key, value) :: entries.filter fun entry => entry.1 ≠ key

namespace State

variable (state : State)

def binding? (name : List Char) : Option Variable :=
  state.bindings.find? fun found => found.name = name

def value? (name : List Char) : Option (List Char) := (state.binding? name).bind (·.value)

def setVariable (changed : Variable) : State :=
  let rec replace : List Variable → List Variable
    | [] => [changed]
    | found :: rest => if found.name = changed.name then changed :: rest else found :: replace rest
  { state with bindings := replace state.bindings }

def removeVariable (name : List Char) : State :=
  { state with bindings := state.bindings.filter fun found => found.name ≠ name }

def isOn (option : String) : Bool := state.options.contains option

/-- Whether the process is the shell itself and not a part of it. -/
def isMain : Bool := state.process == state.shell

def separators : Separators := ⟨(state.value? "IFS".toList).getD usualSeparators⟩

def searchPath : String := String.ofList ((state.value? "PATH".toList).getD [])

/-- Holds the sinks of some descriptors open up to now. -/
def hold (descriptors : Descriptors) : State :=
  let sinks := sinksOf descriptors
  let others := state.held.filter fun entry =>
    !(sinks.contains entry.1 && entry.2.2 == state.owners && entry.2.1 ≤ state.now)
  { state with held := sinks.map (·, state.now, state.owners) ++ others }

/-- Lets time pass; everything that is open stays open. -/
def wait (time : Nat) : State :=
  let state := { state with now := max state.now time }
  state.kept.foldl hold (state.hold state.descriptors)

/-- Until when a sink is held open. -/
def heldUntil (sink : Nat) : Nat :=
  state.held.foldl (fun latest entry => if entry.1 = sink then max latest entry.2.1 else latest) 0

/-- What is written to a sink, in order of time. -/
def textOf (sink : Nat) : List (Nat × List Char) :=
  let found := state.written.reverse.filter (·.sink = sink)
  (found.mergeSort fun a b => a.time ≤ b.time).map fun entry => (entry.time, entry.text)

def channel? (descriptor : Nat) : Option Channel := state.descriptors.lookup descriptor

/-- The content of a file from a place on. -/
def contentOf (path : List String) : List Char := (state.contents.lookup path).getD []

def setContent (path : List String) (text : List Char) : State :=
  { state with
    contents := (path, text) :: state.contents.filter fun entry => entry.1 ≠ path }

end State

namespace Run

def stop {α : Type} (reason : Stop) : Run α := throw reason

def finish (status : Nat) : Run Unit := modify fun state => { state with status }

/-- Runs a body, with a change of the state after it unless the process has come to its end. -/
def thenRestore (restore : State → State) (body : Run Unit) : Run Unit := fun state =>
  match body state with
  | (.error (.killed signal), state) => (.error (.killed signal), state)
  | (.error .endless, state) => (.error .endless, state)
  | (result, state) => (result, restore state)

/-- Writes to a descriptor; tells whether that was possible. -/
def send (descriptor : Nat) (text : List Char) : Run Bool := do
  if text.isEmpty then return true
  let state ← get
  match state.channel? descriptor with
  | some .nothing | some .zeros => return true
  | some (.sink number) =>
      set { state with written := ⟨number, state.now, state.owners, text⟩ :: state.written }
      return true
  | some (.file number) =>
      match state.handles.lookup number with
      | none => return false
      | some handle =>
          let content := state.contentOf handle.path
          let position := if handle.atEnd then content.length else handle.position
          let padded := content ++ List.replicate (position - content.length) '\x00'
          let text := padded.take position ++ text ++ padded.drop (position + text.length)
          let after := { handle with position := position + text.length }
          set { state.setContent handle.path text with
            handles := setEntry number after state.handles }
          return true
  | some .full | some .directory | some (.source _) | none => return false

/-- Complains to standard error in the name of the shell. -/
def complain (reason : List Char) : Run Unit := do
  let state ← get
  let command := match state.command with
    | some command => command ++ [':', ' ']
    | none => []
  let text := state.name ++ (": " ++ toString state.line ++ ": ").toList ++ command ++ reason
  let _ ← send 2 (text ++ ['\n'])

/-- Gives up job control, for which there is no terminal.  A part of a shell never has any. -/
def refuseJobControl : Run Unit := do
  let state ← get
  if state.isOn "monitor" && state.isMain then
    complain "can't access tty; job control turned off".toList
    modify fun state => { state with options := state.options.filter (· ≠ "monitor") }

/-- Fails with a complaint. -/
def fail {α : Type} (reason : List Char) : Run α := do
  complain reason
  finish 2
  throw .failed

/-- Writes what a utility writes and takes over its status. -/
def emit (effect : Effect) : Run Unit := do
  effect.complaints.forM complain
  finish effect.status
  if !(← send 1 effect.stdout) then
    complain (((← get).command.getD []) ++ ": I/O error".toList)
    finish (effect.status ||| 1)

def write (text : List Char) : Run Unit := emit (.writes text)

/-- A number that nothing else has. -/
def newNumber : Run Nat := do
  let state ← get
  set { state with fresh := state.fresh + 1 }
  return state.fresh

/-- Assigns a variable. -/
def assign (name value : List Char) : Run Unit := do
  if name = "OPTIND".toList then
    match Integer.count? value with
    | some place => modify fun state => { state with optionAt := (max place 1, none) }
    | none => fail ("Illegal number: ".toList ++ value)
  let state ← get
  match state.binding? name with
  | some found =>
      if found.readonly then fail (name ++ ": is read only".toList)
      else
        let exported := found.exported || state.isOn "allexport"
        set (state.setVariable { found with value := some value, exported })
  | none => set (state.setVariable ⟨name, some value, state.isOn "allexport", false⟩)

def unset (name : List Char) : Run Unit := do
  let state ← get
  match state.binding? name with
  | some found =>
      if found.readonly then fail (name ++ ": is read only".toList)
      else
        if name = "OPTIND".toList then fail "Illegal number: ".toList
        set (state.removeVariable name)
  | none => return ()

/-- What can be read from a descriptor. -/
def supply? (descriptor : Nat) : Run (Option Supply) := do
  let state ← get
  match state.channel? descriptor with
  | some .nothing => return some ⟨[], some 0⟩
  | some .full | some .zeros => return some ⟨[(0, List.replicate 65536 '\x00')], none⟩
  | some (.source number) => return some ((state.supplies.lookup number).getD ⟨[], some 0⟩)
  | some (.file number) =>
      match state.handles.lookup number with
      | some handle =>
          let text := (state.contentOf handle.path).drop handle.position
          return some ⟨if text.isEmpty then [] else [(0, text)], some 0⟩
      | none => return none
  | some .directory | some (.sink _) | none => return none

/-- Sets what is left to read from a descriptor. -/
def leave (descriptor : Nat) (texts : List (Nat × List Char)) : Run Unit :=
  modify fun state =>
    match state.channel? descriptor with
    | some (.source number) =>
        match state.supplies.lookup number with
        | some supply =>
            { state with supplies := setEntry number { supply with texts } state.supplies }
        | none => state
    | some (.file number) =>
        match state.handles.lookup number with
        | some handle =>
            let size := (state.contentOf handle.path).length
            let position := size - (texts.map fun entry => entry.2.length).foldl (· + ·) 0
            { state with handles := setEntry number { handle with position } state.handles }
        | none => state
    | _ => state

/-- Lets time pass up to a time. -/
def waitUntil (time : Nat) : Run Unit := modify fun state => state.wait time

/-- Reads everything that a descriptor has; `none` if nothing can be read there. -/
def receive (descriptor : Nat) : Run (Option (List Char)) := do
  match ← supply? descriptor with
  | none => return none
  | some supply =>
      leave descriptor []
      match supply.closes with
      | none => throw .endless
      | some closes =>
          if !supply.texts.isEmpty || closes ≠ 0 then
            waitUntil (supply.texts.foldl (fun latest entry => max latest entry.1) closes)
          return some (supply.texts.map (·.2)).flatten

end Run

end NodeInventory.Command.Shell
