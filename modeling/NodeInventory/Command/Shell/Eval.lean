import NodeInventory.Command.Shell.Processes

/-!
# Running scripts

Nodes are run with fuel for how deep they nest, and within a budget of commands: a script that uses
up either is taken for endless.
-/

namespace NodeInventory.Command.Shell

namespace Run

mutual

/-- Runs a node.  A tested one may fail under `errexit`; the last one ends its process. -/
def evaluate : Nat → (tested last : Bool) → Node → Run Unit
  | 0, _, _, _ => throw .endless
  | fuel + 1, tested, last, node => do
      attend fuel
      if (← get).isOn "noexec" then return
      let checked ← match node with
        | .simple line assignments words redirects => do
            simple fuel tested last line assignments words redirects
            pure true
        | .pipeline nodes => do
            let start := (← get).now
            stages fuel tested start start none [] nodes
            pure true
        | .background line body redirects => do
            background fuel line body redirects
            pure true
        | .subshell line body redirects => do
            subshell fuel tested last line body redirects
            pure true
        | .redirected line body redirects => do
            modify fun state => { state with line }
            let openings ← openingsOf (capture fuel) redirects
            let _ ← redirected (capture fuel) openings (evaluate fuel tested false body)
            pure false
        | .andThen first second => do
            evaluate fuel true false first
            if (← get).status = 0 then evaluate fuel tested last second
            pure false
        | .orElse first second => do
            evaluate fuel true false first
            if (← get).status ≠ 0 then evaluate fuel tested last second
            pure false
        | .sequence first second => do
            evaluate fuel tested false first
            evaluate fuel tested last second
            pure false
        | .negation body => do
            evaluate fuel true false body
            finish (if (← get).status = 0 then 1 else 0)
            pure false
        | .branch condition yes no => do
            evaluate fuel true false condition
            if (← get).status = 0 then evaluate fuel tested last yes
            else match no with
              | some no => evaluate fuel tested last no
              | none => finish 0
            pure false
        | .loop whileTrue condition body => do
            loop fuel tested whileTrue condition body
            pure false
        | .each line name words body => do
            modify fun state => { state with line }
            each fuel tested name words body
            pure false
        | .choice line subject cases => do
            modify fun state => { state with line }
            let text ← expandText (capture fuel) .whole subject
            match ← chosen fuel text cases with
            | some (some body) => evaluate fuel tested last body
            | _ => finish 0
            pure false
        | .function _ name body => do
            modify fun state => { state with
              functions := (name, body) :: state.functions.filter fun entry => entry.1 ≠ name
              status := 0 }
            pure false
      attend fuel
      let state ← get
      if checked && !tested && state.status ≠ 0 && state.isOn "errexit" then throw .exited
      if last then throw .exited

/-- The body of the first case that a text fits. -/
def chosen : Nat → List Char → List (List Word × Option Node) → Run (Option (Option Node))
  | 0, _, _ => throw .endless
  | _ + 1, _, [] => return none
  | fuel + 1, text, (patterns, body) :: rest => do
      for pattern in patterns do
        let atoms ← expandWord (capture fuel) .whole pattern
        if (Pattern.ofWord (glyphsOf atoms)).accepts text then return some body
      chosen fuel text rest

/-- Acts on the signals that have come. -/
def attend : Nat → Run Unit
  | 0 => throw .endless
  | fuel + 1 => do
      let state ← get
      if state.signals.isEmpty then return
      match ← firstSignal? (fun _ => true) state.now with
      | none => return
      | some sent =>
          let others := state.signals.filter fun (other : SentSignal) =>
            !(other.target == sent.target && other.signal == sent.signal && other.time ≤ state.now)
          set { state with signals := others }
          match state.traps.lookup sent.signal with
          | some action =>
              if Signal.isCertain sent.signal then suffer sent.signal
              else if !action.isEmpty then
                modify fun state => { state with trapped := some state.status }
                text fuel false action
                modify fun after => { after with status := state.status, trapped := state.trapped }
          | none =>
              if Signal.effect sent.signal ≠ .nothing then
                modify fun state => { state with now := sent.time }
              suffer sent.signal
          attend fuel

/-- Runs the lines of a text. -/
def text : Nat → (tested : Bool) → List Char → Run Unit
  | 0, _, _ => throw .endless
  | fuel + 1, tested, script => do
      let reached := (← get).reached
      thenRestore (fun after => { after with reached })
        (lines fuel tested false (.start script 0))

/-- Runs lines; if there are no commands at all, that is a success. -/
def lines : Nat → (tested ran : Bool) → Source → Run Unit
  | 0, _, _, _ => throw .endless
  | fuel + 1, tested, ran, source => do
      match ← readLineOf source with
      | (.ended, _) => if !ran then finish 0
      | (.blank, source) => lines fuel tested ran source
      | (.node node, source) =>
          evaluate fuel tested false node
          lines fuel tested true source

/-- Runs what is left of the standard input. -/
def input : Nat → (ran : Bool) → Run Unit
  | 0, _ => throw .endless
  | fuel + 1, ran => do
      lines fuel false ran (.start ((← receive 0).getD []) 0)

/-- What a node writes to standard output when it runs on its own. -/
def capture : Nat → Option Node → Run (List Char)
  | 0, _ => throw .endless
  | _ + 1, none => do
      modify fun state => { state with substituted := 0 }
      return []
  | fuel + 1, some node => do
      let sink ← newNumber
      let number ← newProcess
      let outside ← get
      let context := childContext number outside
      let context := { context with descriptors := setEntry 1 (.sink sink) context.descriptors }
      set { outside with written := [], now := outside.now + startTime }
      let (ending, status) ← asProcess context
        (concluded (text fuel false) (evaluate fuel false true node))
      let after ← get
      let output := (after.textOf sink).map (·.2)
      let closes := after.heldUntil sink
      if ending = .endless || never ≤ closes then throw .endless
      let others := after.written.filter fun entry => entry.sink ≠ sink
      set { after with
        written := others ++ outside.written
        held := after.held.filter fun entry => entry.1 ≠ sink
        substituted := status }
      waitUntil (max after.now closes)
      noticeChild
      report ending
      perish
      return output.flatten

/-- Runs what is left of a pipeline, each node with the output of the one before as its input.  All
of it starts at one time; `latest` is when all that has been run has ended. -/
def stages : Nat → Bool → (start latest : Nat) → (input : Option Channel) → List Ending →
    List Node → Run Unit
  | 0, _, _, _, _, _, _ => throw .endless
  | _ + 1, _, _, _, _, _, [] => return
  | fuel + 1, tested, start, latest, input, endings, node :: rest => do
      let sink ← newNumber
      let number ← newProcess
      let outside ← get
      let context := childContext number outside
      let descriptors := match input with
        | some channel => setEntry 0 channel context.descriptors
        | none => context.descriptors
      let descriptors := if rest.isEmpty then descriptors else setEntry 1 (.sink sink) descriptors
      let share := if rest.isEmpty then outside.budget else outside.budget / 2
      set { outside with now := start + startTime, budget := share }
      let (ending, status) ← asProcess { context with descriptors }
        (concluded (text fuel false) (evaluate fuel tested true node))
      let after ← get
      if rest.isEmpty then
        if ending = .endless then throw .endless
        waitUntil (max latest after.now)
        noticeChild
        (endings ++ [ending]).forM report
        finish status
      else
        let output := after.textOf sink
        let closes := max after.now (after.heldUntil sink)
        if ending = .endless && output.isEmpty then throw .endless
        set { after with
          budget := outside.budget - share + after.budget
          written := after.written.filter fun entry => entry.sink ≠ sink
          held := after.held.filter fun entry => entry.1 ≠ sink }
        let endless := ending = .endless || never ≤ closes
        let channel ← newSource ⟨output, if endless then none else some closes⟩
        let latest := if ending = .endless then latest else max latest after.now
        stages fuel tested start latest (some channel) (endings ++ [ending]) rest

def subshell : Nat → (tested last : Bool) → Nat → Node → List Redirect → Run Unit
  | 0, _, _, _, _, _ => throw .endless
  | fuel + 1, tested, last, line, body, redirects => do
      modify fun state => { state with line }
      let openings ← openingsOf (capture fuel) redirects
      let within : Run Unit := do
        leadAll (capture fuel) false openings
        evaluate fuel tested true body
      if last && (← get).traps.all fun entry => entry.2.isEmpty then within
      else inChild (concluded (text fuel false) within)

/-- Starts a job. -/
def background : Nat → Nat → Node → List Redirect → Run Unit
  | 0, _, _, _ => throw .endless
  | fuel + 1, line, body, redirects => do
      let openings ← openingsOf (capture fuel) redirects
      let slot ← claimSlot
      let number ← newProcess
      let state ← get
      let context := childContext number state
      let ignored := [(2, []), (3, [])].filter fun entry =>
        (context.traps.lookup entry.1).isNone
      let start := { context with
        line
        owners := number :: state.owners
        traps := ignored ++ context.traps
        descriptors := setEntry 0 .nothing context.descriptors }
      set { state with lastJob := some number, status := 0 }
      launch fuel ⟨number, start, body, openings, state.now, slot, false, none, 0, none⟩

/-- Runs a job from its start to its end, on a clock of its own.  As long as it starts it ignores
nothing by itself. -/
def launch : Nat → Job → Run Unit
  | 0, _ => throw .endless
  | fuel + 1, job => do
      let outside ← get
      let received := outside.signals.filter fun sent => sent.target == job.number
      let share := outside.budget / 4
      let early? := received.find? fun sent =>
        job.isStarting sent.time && Signal.effect sent.signal == .death
          && (outside.traps.lookup sent.signal).isNone
      let within : Run Unit := do
        if let some sent := early? then throw (.killed sent.signal)
        leadAll (capture fuel) false job.openings
        evaluate fuel false true job.body
      set { outside with now := job.begun + startTime, budget := share }
      let (ending, status) ← asProcess job.start (concluded (text fuel false) within)
      let after ← get
      let killed := match ending with
        | .killed signal => some signal
        | _ => none
      let ended := if ending = .endless then none else some after.now
      let job := { job with ended, status, killed }
      let held := if ending = .endless then
        (sinksOf job.start.descriptors).map fun sink => (sink, never, job.start.owners) else []
      let told := match ended with
        | some time =>
            if (outside.traps.lookup Signal.child).any (!·.isEmpty) then
              [(⟨time, job.start.parent, Signal.child, job.start.owners⟩ : SentSignal)] else []
        | none => []
      set { after with
        now := outside.now, budget := outside.budget - share + after.budget
        held := held ++ after.held
        jobs := job :: after.jobs.filter fun other => other.number ≠ job.number
        signals := told ++ received ++ after.signals.filter fun (sent : SentSignal) =>
          sent.target ≠ job.number }

def loop : Nat → (tested whileTrue : Bool) → (condition body : Node) → Run Unit
  | 0, _, _, _, _ => throw .endless
  | fuel + 1, tested, whileTrue, condition, body => do
      let state ← get
      set { state with loops := state.loops + 1 }
      let turn (status : Nat) : Run (Bool × Nat) := do
        let goesOn ← loopTurn do
          evaluate fuel true false condition
          if ((← get).status = 0) = whileTrue then evaluate fuel tested false body
          else
            finish status
            throw (.left 1)
        return (goesOn, (← get).status)
      thenRestore (fun after => { after with loops := state.loops })
        (repeatTurns turn state.budget 0)

def each : Nat → Bool → List Char → List Word → Node → Run Unit
  | 0, _, _, _, _ => throw .endless
  | fuel + 1, tested, name, words, body => do
      let values ← words.flatMapM (expandFields (capture fuel))
      if values.isEmpty then finish 0
      let state ← get
      set { state with loops := state.loops + 1 }
      let turns : Run Unit := do
        for value in values do
          assign name value
          if !(← loopTurn (evaluate fuel tested false body)) then return
      thenRestore (fun after => { after with loops := state.loops }) turns

/-- Runs a simple command: its words are expanded first, then it is redirected, then variables are
assigned.  A command that is not special has a level of local variables. -/
def simple : Nat → (tested last : Bool) → Nat → (assignments words : List Word) → List Redirect →
    Run Unit
  | 0, _, _, _, _, _, _ => throw .endless
  | fuel + 1, tested, last, line, assignments, words, redirects => do
      spend
      modify fun state => { state with line, substituted := 0 }
      let words ← expandCommand (capture fuel) words
      let found := unprefixed words.length ⟨false, false, words⟩
      let name := String.ofList (found.words.headD [])
      let special := !found.bypasses && specialNames.contains name && !words.isEmpty
      let persists := name = "exec" && !found.words.isEmpty
      let within : Run Unit := do
        let openings ← openingsOf (capture fuel) redirects
        let outside ← get
        let body : Run Unit := do
          let mut shown := []
          for word in assignments do
            let assignee := (Word.assignee? word).getD []
            let value ← expandText (capture fuel) .value (word.drop (assignee.length + 1))
            if (!words.isEmpty && !special) || (persists && 1 < found.words.length) then
              assignExported assignee value
            else assign assignee value
            shown := shown ++ [assignee ++ '=' :: value]
          if (← get).isOn "xtrace" then
            let sign ← announcement (capture fuel) "PS4"
            trace outside.descriptors (sign ++ List.intercalate [' '] (shown ++ words))
          perform fuel tested last special found
        let names := assignments.map fun word => (Word.assignee? word).getD []
        let before := names.map fun name => (name, outside.binding? name)
        let restore (state : State) : State :=
          if words.isEmpty || special then state else before.foldl restoreVariable state
        thenRestore restore do
          if persists then
            if !(← leadOrUndo (capture fuel) openings) then body
            else if special then throw .failed
          else if (← redirected (capture fuel) openings body) && special then throw .failed
      if words.isEmpty || special then within
      else
        let outer := (← get).hidden
        modify fun state => { state with hidden := ⟨[], none⟩ :: outer }
        thenRestore (leaveLevel outer) within

/-- Runs a command after its words have been expanded. -/
def perform : Nat → (tested last special : Bool) → Prefixed → Run Unit
  | 0, _, _, _, _ => throw .endless
  | fuel + 1, tested, last, special, found => do
      match found.words with
      | [] => finish (← get).substituted
      | name :: arguments =>
          let state ← get
          let text := String.ofList name
          let within (run : Run Unit) : Run Unit :=
            thenRestore (fun after => { after with command := state.command }) do
              modify fun state => { state with command := some name }
              if special then run else tolerated run
          match if found.bypasses then none else state.functions.lookup name with
          | some body => callFunction fuel tested body arguments
          | none =>
              match builtin? text with
              | some run => within (run arguments)
              | none =>
                  if controlNames.contains text then within (control fuel tested text arguments)
                  else external fuel last found.usualPath found.words

def callFunction : Nat → Bool → Node → List (List Char) → Run Unit
  | 0, _, _, _ => throw .endless
  | fuel + 1, tested, body, arguments => do
      let state ← get
      if 1000 ≤ state.calls then
        fail "Maximum function recursion depth (1000) reached".toList
      set { state with
        arguments, optionAt := (1, none), calls := state.calls + 1, loops := 0
        hidden := ⟨[], none⟩ :: state.hidden }
      let restore (after : State) : State :=
        leaveLevel state.hidden { after with
          arguments := state.arguments, optionAt := state.optionAt, calls := state.calls
          loops := state.loops }
      let body : Run Unit := fun state =>
        match evaluate fuel tested false body state with
        | (.error .returned, state) => (.ok (), state)
        | found => found
      thenRestore restore do
        body
        let frame := (← get).hidden.headD ⟨[], none⟩
        if let some (name, _) := frame.bindings.find? fun entry => !isName entry.1 then
          checkName name

/-- Runs a program in a process of its own, or in place of this one. -/
def external : Nat → (last usualPath : Bool) → List (List Char) → Run Unit
  | 0, _, _, _ => throw .endless
  | fuel + 1, last, usualPath, words => do
      let name := words.headD []
      match ← find name usualPath with
      | .error error =>
          complainOf name error
          finish (if name.contains '/' then statusOf error else 127)
      | .ok path =>
          let within : Run Unit := do
            becomeProgram
            program fuel path words
            throw .exited
          if last && (← get).traps.all fun entry => entry.2.isEmpty then within
          else inChild within

/-- Runs the program at a path. -/
def program : Nat → String → List (List Char) → Run Unit
  | 0, _, _ => throw .endless
  | fuel + 1, path, words => do
      let name := String.ofList ((Text.split (· == '/') path.toList).getLastD [])
      let called := words.headD []
      if name = "sh" || name = "dash" then shell fuel called words.tail
      else if name = "env" then
        match ← Program.changeEnvironment called words.tail with
        | [] => return
        | name :: arguments =>
            match ← find name ((← get).value? "PATH".toList).isNone with
            | .ok path => program fuel path (name :: arguments)
            | .error error => Program.refuseCommand name error
      else Program.run name called words.tail

/-- Runs as a shell with a name and arguments. -/
def shell : Nat → (name : List Char) → List (List Char) → Run Unit
  | 0, _, _ => throw .endless
  | fuel + 1, name, arguments => do
      becomeShell name
      let run (name : List Char) (arguments : List (List Char)) (body : Run Unit) : Run Unit := do
        modify fun state => { state with name, arguments }
        refuseJobControl
        concluded (text fuel false) body
      match Switches.read true (arguments.length + 1) ⟨[], arguments, false, false, []⟩ with
      | .error reason => fail reason
      | .ok switches =>
          let options := switches.options
          let reads := options.contains "stdin" || !switches.command && switches.rest.isEmpty
          let options := if reads then Switches.turn "stdin" true options else options
          modify fun state => { state with options }
          for asCommands in switches.tables do
            write (switchTable asCommands (allSwitches.map (·.1)))
          let given (script : List Char) : Run Unit := fun state =>
            match text fuel false script state with
            | (.ok (), state) =>
                if state.isOn "stdin" then input fuel true state else (.ok (), state)
            | found => found
          match switches.command, switches.rest with
          | true, [] => fail "-c requires an argument".toList
          | true, script :: [] => run name [] (given script)
          | true, script :: name :: rest => run name rest (given script)
          | false, rest =>
              match if reads then [] else rest with
              | [] => run name rest (input fuel false)
              | path :: rest =>
                  let channel ← openToRead path
                  setDescriptor 10 (some channel)
                  let script := (← receive 10).getD []
                  setDescriptor 10 none
                  run path rest (text fuel false script)

/-- Runs one of the shell's own commands that run others or end something. -/
def control : Nat → (tested : Bool) → String → List (List Char) → Run Unit
  | 0, _, _, _ => throw .endless
  | fuel + 1, tested, name, arguments => do
      match name with
      | "exit" =>
          let state ← get
          finish (← number arguments (state.trapped.getD state.status))
          throw .exited
      | "return" =>
          finish (← number arguments (← get).status)
          let state ← get
          throw (if !tested && state.status ≠ 0 && state.isOn "errexit" then .exited else .returned)
      | "break" =>
          let count ← loopCount arguments
          finish 0
          if count ≠ 0 then throw (.left count)
      | "continue" =>
          let count ← loopCount arguments
          finish 0
          if count ≠ 0 then throw (.turned count)
      | "eval" =>
          text fuel tested (List.intercalate [' '] arguments)
      | "." => source fuel arguments
      | "exec" =>
          match arguments with
          | [] => finish 0
          | name :: _ =>
              match ← find name false with
              | .error error =>
                  complainOf name error
                  finish (statusOf error)
                  throw .exited
              | .ok path =>
                  becomeProgram
                  program fuel path arguments
                  throw .exited
      | "command" =>
          let (found, words) ← options "pvV" arguments
          match words, found.isEmpty with
          | [], _ | _, true => finish 0
          | word :: _, false =>
              let has (c : Char) : Bool := found.any fun entry => entry.1 = c
              describeAll (!has 'V') (has 'p') [word]
      | "type" => describeAll false false arguments
      | "wait" => waitBuiltin arguments
      | _ => killAll fuel arguments

/-- Runs the text of a file. -/
def source : Nat → List (List Char) → Run Unit
  | 0, _ => throw .endless
  | fuel + 1, arguments => do
      match (← options "" arguments).2 with
      | [] => finish 0
      | path :: _ =>
          if !path.contains '/' then
            let state ← get
            let directories := Text.split (· == ':') state.searchPath.toList
            let found? := directories.find? fun directory =>
              state.fileAt? (directory ++ '/' :: path) == some .document
            if found?.isNone then fail (path ++ ": not found".toList)
          let channel ← openToRead path
          setDescriptor 10 (some channel)
          let script := (← receive 10).getD []
          setDescriptor 10 none
          fun state =>
            match text fuel false script state with
            | (.error .returned, state) => (.ok (), state)
            | found => found

def killAll : Nat → List (List Char) → Run Unit
  | 0, _ => throw .endless
  | fuel + 1, arguments => do
      match ← killArguments arguments with
      | (none, words) => listSignals words
      | (some signal, targets) =>
          let mut missing := false
          for word in targets do
            let target? ← match word with
              | '%' :: _ => do
                  let _ ← jobOf word
                  pure none
              | '-' :: group => do
                  let _ ← number [group] 0
                  pure none
              | _ => some <$> number [word] 0
            let isSent ← match target? with
              | some target => sendSignal fuel signal target
              | none => pure false
            if !isSent then
              complain "No such process\n".toList
              missing := true
          finish (if missing then 1 else 0)

/-- Sends a signal to a process; tells whether there is one.  The first process of a system is
always there, and takes no signals. -/
def sendSignal : Nat → (signal target : Nat) → Run Bool
  | 0, _, _ => throw .endless
  | fuel + 1, signal, target => do
      let state ← get
      let sent : SentSignal := ⟨state.now, target, signal, state.owners⟩
      let send : Run Unit := if signal = 0 then return else
        modify fun state => { state with signals := sent :: state.signals }
      if target = state.process then
        match if Signal.isCertain signal then none else state.traps.lookup signal with
        | some action => if !action.isEmpty then send
        | none => if signal ≠ 0 then suffer signal
        return true
      else
        match state.jobs.find? fun job => job.number = target with
        | some job =>
            if job.hasEnded state.reaped then return false
            let isHandled := (state.traps.lookup signal).any fun action => !action.isEmpty
            let isLost := isHandled && !Signal.isCertain signal && job.isStarting state.now
            if signal ≠ 0 && !isLost && !job.hasEnded state.now then
              forgetJob target
              send
              launch fuel job
            return true
        | none =>
            if target = state.shell || target = state.parent then
              send
              return true
            else return target = 1

end

end Run

end NodeInventory.Command.Shell
