import NodeInventory.Command.Shell.Job
import NodeInventory.Command.Shell.Parser
import NodeInventory.Command.Shell.Program
import NodeInventory.Command.Shell.Redirection

/-!
# Processes of a script

What running a script needs besides the order of its commands: loops and ends, processes and the
signals between them, and how commands are found.
-/

namespace NodeInventory.Command.Shell

/-- How a process has ended. -/
inductive Ending
  | ended
  | killed (signal : Nat)
  | endless
deriving DecidableEq, Repr

namespace Run

/-- Takes a command from the budget, which takes some time. -/
def spend : Run Unit := do
  let state ← get
  if state.budget = 0 then throw .endless
  set { state with budget := state.budget - 1, now := state.now + 2 }

/-- A number for a new process.  To start one takes as much as many commands. -/
def newProcess : Run Nat := do
  let _ ← claimSlot
  modify fun state => { state with budget := state.budget - 50 }
  newNumber

/-- Notices that a child has ended, which is told to a script that wants to know. -/
def noticeChild : Run Unit := do
  let state ← get
  let sent := if (state.traps.lookup Signal.child).any (!·.isEmpty) then
    [⟨state.now, state.process, Signal.child, state.owners⟩] else []
  set { state with reaped := state.now, signals := sent ++ state.signals }

/-- Runs turns, each with the status of the one before, until one tells that it was the last. -/
def repeatTurns (turn : Nat → Run (Bool × Nat)) : Nat → Nat → Run Unit
  | 0, _ => throw .endless
  | count + 1, status => do
      let (again, status) ← turn status
      if again then repeatTurns turn count status else finish status

/-- Runs a turn of a loop; tells whether the loop goes on. -/
def loopTurn (body : Run Unit) : Run Bool := fun state =>
  match body state with
  | (.ok (), state) => (.ok true, state)
  | (.error (.left n), state) =>
      (if n ≤ 1 then .ok false else .error (.left (n - 1)), state)
  | (.error (.turned n), state) =>
      (if n ≤ 1 then .ok true else .error (.turned (n - 1)), state)
  | (.error reason, state) => (.error reason, state)

/-- Runs a body as a process of its own; only the world keeps what it does. -/
def asProcess (start : Context) (body : Run Unit) : Run (Ending × Nat) := fun state =>
  let (result, after) := body { state with toContext := start }
  let back (after : State) : State := { after with toContext := state.toContext }
  match result with
  | .error (.killed signal) => (.ok (.killed signal, 128 + signal), back (after.wait after.now))
  | .error .endless => (.ok (.endless, 0), back after)
  | _ => (.ok (.ended, after.status), back (after.wait after.now))

/-- The context of a new process. -/
def childContext (number : Nat) (state : State) : Context :=
  { state.toContext with
    process := number, parent := state.process, kept := [], reached := 1
    traps := state.traps.filter fun entry => entry.2.isEmpty }

/-- Tells that a signal has ended a command, unless the signal is a usual one. -/
def report (ending : Ending) : Run Unit := do
  match ending with
  | .killed signal =>
      if !Signal.quiet.contains signal then
        let _ ← send 2 ((Signal.title signal).toList ++ ['\n'])
  | _ => return

/-- Runs a body as a child, and waits for it. -/
def inChild (body : Run Unit) : Run Unit := do
  let number ← newProcess
  modify fun state => { state with now := state.now + startTime }
  let (ending, status) ← asProcess (childContext number (← get)) body
  if ending = .endless then throw .endless
  let state ← get
  waitUntil state.now
  noticeChild
  report ending
  finish status

/-- Runs a body, and then what a script does at its end, which `last` runs. -/
def concluded (last : List Char → Run Unit) (body : Run Unit) : Run Unit := fun state =>
  match body state with
  | (.error (.killed signal), state) => (.error (.killed signal), state)
  | (.error .endless, state) => (.error .endless, state)
  | (_, state) =>
      match state.traps.lookup 0 with
      | none => (.error .exited, state)
      | some action =>
          let traps := state.traps.filter fun entry => entry.1 ≠ 0
          match last action { state with traps, trapped := some state.status } with
          | (.error .exited, after) | (.error .failed, after) => (.error .exited, after)
          | (.error (.killed signal), after) => (.error (.killed signal), after)
          | (.error .endless, after) => (.error .endless, after)
          | (_, after) => (.error .exited, { after with status := state.status })

/-- Runs a body and keeps errors from ending more than it; tells whether there was one. -/
def tolerated (body : Run Unit) : Run Unit := fun state =>
  match body state with
  | (.error .failed, state) => (.ok (), state)
  | found => found

/-- Puts a variable back to what it was. -/
def restoreVariable (state : State) (entry : List Char × Option Variable) : State :=
  match entry.2 with
  | some found => state.setVariable found
  | none => state.removeVariable entry.1

/-- Gives up the innermost level of local variables and goes back to the levels around it. -/
def leaveLevel (outer : List Hidden) (state : State) : State :=
  let inner := state.hidden.headD ⟨[], none⟩
  inner.bindings.foldl restoreVariable { state with
    hidden := outer, options := inner.options.getD state.options }

/-- A signal that this process gets to know: the first one up to a time. -/
def firstSignal? (accept : SentSignal → Bool) (time : Nat) : Run (Option SentSignal) := do
  let state ← get
  if state.signals.isEmpty then return none
  let own := state.signals.filter fun sent =>
    sent.target == state.process && sent.time ≤ time && accept sent
  return own.reverse.foldl (fun first? sent =>
    match first? with
    | some first => if sent.time ≤ first.time then some sent else some first
    | none => some sent) none

/-- Whether a signal does something to this process. -/
def matters (state : State) (sent : SentSignal) : Bool :=
  match state.traps.lookup sent.signal with
  | some action => !action.isEmpty && !Signal.isCertain sent.signal
  | none => Signal.effect sent.signal ≠ .nothing

/-- Takes a signal that is not handled by the script. -/
def suffer (signal : Nat) : Run Unit := do
  match Signal.effect signal with
  | .death => throw (.killed signal)
  | .halt => throw .endless
  | .nothing => return

/-- How a program is found, or why it is not. -/
def find (name : List Char) (usualPath : Bool) : Run (Except SpawnError String) := do
  let state ← get
  let path := if usualPath then "/usr/sbin:/usr/bin:/sbin:/bin" else state.searchPath
  match state.here.lookUp path (String.ofList name) with
  | .ok path => return .ok path
  | .error error => return .error (if name.isEmpty then .permissionDenied else error)

/-- Complains about a program that has not been found. -/
def complainOf (name : List Char) (error : SpawnError) : Run Unit :=
  let reason := match error with
    | .permissionDenied => "Permission denied"
    | .nameTooLong => "File name too long"
    | _ => "not found"
  complain (name ++ (": " ++ reason).toList)

/-- The status of a process that cannot become the program that it should. -/
def statusOf (error : SpawnError) : Nat := if error = .permissionDenied then 126 else 127

/-- What a name stands for as a command. -/
def meaning (name : List Char) (usualPath : Bool) : Run Meaning := do
  let state ← get
  let text := String.ofList name
  if (Keyword.ofText? name).isSome then return .keyword
  if (state.functions.lookup name).isSome then return .function
  if specialNames.contains text then return .special
  if controlNames.contains text || (builtin? text).isSome then return .builtin
  if name.contains '/' then
    return if (state.fileAt? name).isSome then .file name else .unknown
  match ← find name usualPath with
  | .ok path => return .file path.toList
  | .error _ => return .unknown

def describeAll (brief usualPath : Bool) (names : List (List Char)) : Run Unit := do
  emit (describe brief (← names.mapM fun name => do return (name, ← meaning name usualPath)))

/-- Ends the process if a signal has come that ends it. -/
def perish : Run Unit := do
  let state ← get
  let ends (sent : SentSignal) : Bool :=
    (state.traps.lookup sent.signal).isNone && Signal.effect sent.signal == .death
  if let some sent ← firstSignal? ends state.now then suffer sent.signal

/-- A number of loops to leave or to go on with. -/
def loopCount (arguments : List (List Char)) : Run Nat := do
  let count ← number arguments 1
  if count = 0 then fail ("Illegal number: ".toList ++ arguments.headD [])
  return min count (← get).loops

/-- Lists signals, or the one of a status. -/
def listSignals (arguments : List (List Char)) : Run Unit := do
  match arguments with
  | [] => write (("0" :: Signal.names).flatMap fun name => name.toList ++ ['\n'])
  | word :: _ =>
      let n ← number arguments 0
      match Signal.name? (if 128 < n then n - 128 else n) with
      | some name => write (name.toList ++ ['\n'])
      | none => fail ("invalid signal number or exit status: ".toList ++ word)

/-- The signal that `kill` sends and whom to, or nothing if it lists signals. -/
def killArguments (arguments : List (List Char)) : Run (Option Nat × List (List Char)) := do
  let usage : Run (Option Nat × List (List Char)) :=
    fail ("Usage: kill [-s sigspec | -signum | -sigspec] [pid | job]... or\n"
      ++ "kill -l [exitstatus]").toList
  let sending (signal : Nat) (targets : List (List Char)) :
      Run (Option Nat × List (List Char)) :=
    if targets.isEmpty then usage else return (some signal, targets)
  match arguments with
  | ('-' :: name) :: targets =>
      match Signal.ofText? false name with
      | some signal => sending signal targets
      | none =>
          let (found, targets) ← options "ls:" arguments
          let signals ← found.mapM fun entry => do
            if entry.1 = 'l' then return none
            match Signal.ofText? false entry.2 with
            | some signal => return some signal
            | none => fail ("invalid signal number or name: ".toList ++ entry.2)
          if found.any fun entry => entry.1 = 'l' then return (none, targets)
          else sending ((signals.getLast?.join).getD 15) targets
  | [] => usage
  | targets => sending 15 targets

/-- The text of a variable that announces a line, with what is in it expanded. -/
def announcement (capture : Option Node → Run (List Char)) (name : String) : Run (List Char) := do
  let text := ((← get).value? name.toList).getD []
  match wordOf text with
  | .ok word => expandText capture .quotes word
  | .error _ => return text

/-- Reads the next line of a source. -/
def readLineOf (source : Source) : Run (Line × Source) := do
  let state ← get
  match Source.nextLine { source with
    documentCount := max source.documentCount state.documentCount } with
  | .error fault =>
      modify fun state => { state with line := fault.line }
      fail fault.message.toList
  | .ok (line, after) =>
      modify fun state => { state with
        documents := after.documents ++ state.documents, documentCount := after.documentCount
        reached := after.line }
      return (line, { after with documents := [] })

/-- Variables whose values a shell does not take over. -/
def ownVariables (parent : Nat) (route : List Char) : List Variable :=
  [("IFS", " \t\n"), ("OPTIND", "1"), ("PPID", toString parent)].map (fun entry =>
      ⟨entry.1.toList, some entry.2.toList, false, false⟩)
    ++ [⟨"PWD".toList, some route, true, false⟩]

/-- Variables of a shell that has been given none of their names. -/
def defaults : List Variable :=
  [("PS1", "# "), ("PS2", "> "), ("PS4", "+ "),
    ("PATH", "/usr/local/sbin:/usr/local/bin:/usr/sbin:/usr/bin:/sbin:/bin")].map fun entry =>
      ⟨entry.1.toList, some entry.2.toList, false, false⟩

/-- Turns a process into a shell with its name. -/
def becomeShell (name : List Char) : Run Unit := do
  let state ← get
  let given := (Program.environment state).filterMap fun entry =>
    if isName entry.1 then some (⟨entry.1, some entry.2, true, false⟩ : Variable) else none
  let among (others : List Variable) (found : Variable) : Bool :=
    others.any fun other => other.name = found.name
  let route := match given.find? fun found => found.name = "PWD".toList with
    | some ⟨_, some path, _, _⟩ =>
        if path.head? = some '/' && (state.here.resolve (String.ofList path)).toOption
          == some state.working then path else pathOf state.working
    | _ => pathOf state.working
  let own := (ownVariables state.parent route).map fun found =>
    if among given found then { found with exported := true } else found
  set { state with
    route, name := "sh".toList, arguments := []
    bindings := given.filter (!among own ·) ++ own ++ defaults.filter (!among given ·)
    hidden := [], functions := [], options := [], status := 0
    substituted := 0, shell := state.process, lastJob := none, kept := [], line := 0
    command := none, loops := 0, calls := 0, optionAt := (1, none) }
  if let some ⟨_, some place, _, _⟩ := given.find? fun found => found.name = "OPTIND".toList then
    if (Integer.count? place).isNone then fail ("Illegal number: ".toList ++ place)
  modify fun state => { state with name }

/-- Microseconds until a process that waits has been woken. -/
def wakeTime : Nat := 100

/-- Waits for jobs, as long as no signal comes that the script acts on; tells whether none has. -/
def waitForJobs (ended : Option Nat) : Run Bool := do
  let state ← get
  let time := ended.getD never
  let interrupts (sent : SentSignal) : Bool :=
    matters state sent && sent.time + wakeTime < time
  match ← firstSignal? interrupts time with
  | some sent =>
      waitUntil sent.time
      finish (128 + sent.signal)
      return false
  | none =>
      if never ≤ time then throw .endless
      waitUntil time
      reap
      return true

/-- Gives up the numbers of jobs. -/
def setAwaited (numbers : List Nat) : Run Unit :=
  modify fun state => { state with
    jobs := state.jobs.map fun job =>
      if numbers.contains job.number then { job with awaited := true } else job }

def waitBuiltin (arguments : List (List Char)) : Run Unit := do
  let (_, words) ← options "" arguments
  let state ← get
  finish 0
  if words.isEmpty then
    let ended := state.ownJobs.foldl (fun latest job => max latest (job.ended.getD never)) state.now
    if ← waitForJobs (some ended) then setAwaited (state.ownJobs.map (·.number))
  else
    for word in words do
      let job? ← if word.head? = some '%' then some <$> jobOf word
        else do
          let n ← number [word] 0
          pure (state.ownJobs.find? fun job => job.number = n)
      match job? with
      | none => finish 127
      | some job =>
          if ← waitForJobs job.ended then
            if !job.awaited then
              if let some signal := job.killed then report (.killed signal)
            setAwaited [job.number]
            finish job.status

/-- The words of a command.  Some commands define variables, the values of which stay whole. -/
def expandCommand (capture : Option Node → Run (List Char)) (words : List Word) :
    Run (List (List Char)) :=
  words.foldlM (fun found word => do
    let named := found.dropWhile fun word => word = "command".toList || word = "-p".toList
    let defines := ["export", "readonly", "local"].any fun name =>
      named.head? = some name.toList
    match if defines then Word.assignee? word else none with
    | some name =>
        let value ← expandText capture .value (word.drop (name.length + 1))
        return found ++ [name ++ '=' :: value]
    | none => return found ++ (← expandFields capture word)) []

/-- Writes to what standard error was before. -/
def trace (descriptors : Descriptors) (line : List Char) : Run Unit := do
  let state ← get
  set { state with descriptors }
  let _ ← send 2 (line ++ ['\n'])
  modify fun after => { after with descriptors := state.descriptors }

/-- What `command` is asked for, and the words that it runs. -/
structure Prefixed where
  /-- Whether functions are passed over. -/
  bypasses : Bool
  usualPath : Bool
  words : List (List Char)
deriving DecidableEq, Repr

/-- Takes `command` away from the words that it runs; without any it stays. -/
def unprefixed : Nat → Prefixed → Prefixed
  | 0, found => found
  | fuel + 1, found =>
      if found.words.head? = some "command".toList then
        let rest := found.words.tail
        let isOption (word : List Char) : Bool :=
          word.head? = some '-' && word.length ≠ 1 && word.tail.all (· = 'p')
        let options := rest.takeWhile isOption
        let behind := rest.drop options.length
        let words := if behind.head? = some ['-', '-'] then behind.tail else behind
        match words with
        | [] => found
        | word :: _ =>
            if word.head? = some '-' && word.length ≠ 1 && behind = words then found
            else unprefixed fuel ⟨true, found.usualPath || !options.isEmpty, words⟩
      else found

/-- Ends what belongs to a shell when another program takes its place. -/
def becomeProgram : Run Unit :=
  modify fun state => { state with
    now := state.now + startTime, kept := [], command := none
    traps := state.traps.filter fun entry => entry.2.isEmpty }

/-- Removes all that a job and its parts have done. -/
def forgetJob (number : Nat) : Run Unit :=
  modify fun state => { state with
    written := state.written.filter fun entry => !entry.owners.contains number
    held := state.held.filter fun entry => !entry.2.2.contains number
    signals := state.signals.filter fun sent => !sent.owners.contains number
    jobs := state.jobs.filter fun job => !job.start.owners.contains number }

end Run

end NodeInventory.Command.Shell
