import NodeInventory.Command.Shell.Builtin

/-!
# Programs

What the few programs do that scripts start besides shells.  A program runs in a context of its own.
-/

namespace NodeInventory.Command.Shell.Program

open Run

/-- Writes a line to standard error in the name of the program, and fails. -/
def refuse (reason : String) : Run Unit := do
  let _ ← send 2 ((← get).name ++ (": " ++ reason ++ "\n").toList)
  finish 1

/-- Tells where there is help. -/
def hint : Run Unit := do
  let _ ← send 2 ("Try '".toList ++ (← get).name ++ " --help' for more information.\n".toList)

/-- Refuses arguments. -/
def misuse (reason : String) : Run Unit := do
  refuse reason
  hint

/-- Writes to standard output, or says why not. -/
def write (text : List Char) : Run Unit := do
  let reason := if (← get).channel? 1 == some .full then "No space left on device"
    else "Bad file descriptor"
  if !(← send 1 text) then refuse ("write error: " ++ reason)

/-- The microseconds of an interval: a number of seconds, or of what its unit says. -/
def interval? (text : List Char) : Option Nat :=
  let found := Printf.readReal text
  let unit? : Option Nat := match found.rest with
    | [] | ['s'] => some 1000000
    | ['m'] => some 60000000
    | ['h'] => some 3600000000
    | ['d'] => some 86400000000
    | _ => none
  match found.value with
  | .finite false units _ =>
      if found.rest.length = text.length then none
      else unit?.map fun unit => units * unit / Number.one
  | .infinite false => unit?.map fun _ => never
  | _ => none

/-- Lets time pass, unless a signal that ends the process comes first. -/
def rest (duration : Nat) : Run Unit := do
  let state ← get
  let due := state.now + duration
  let fatal (sent : SentSignal) : Bool :=
    sent.target == state.process && sent.time ≤ due && Signal.effect sent.signal == .death
      && (state.traps.lookup sent.signal).isNone
  let first := (state.signals.filter fatal).foldl (fun first? sent =>
    match first? with
    | some first => if sent.time < first.time then some sent else some first
    | none => some sent) none
  match first with
  | some sent =>
      waitUntil (max state.now sent.time)
      stop (.killed sent.signal)
  | none => waitUntil due

/-- The letters of the options among the arguments of a program, and its other arguments; or what is
wrong with an option.  Two dashes end the options. -/
def options (allowed : List Char) (arguments : List (List Char)) :
    Except String (List Char × List (List Char)) := do
  let isOption (word : List Char) : Bool := word.head? == some '-' && 1 < word.length
  let leading := arguments.takeWhile (· ≠ ['-', '-'])
  let letters ← (leading.filter isOption).flatMapM fun word =>
    match word.tail.find? fun c => !allowed.contains c with
    | none => pure word.tail
    | some '-' => throw ("unrecognized option '" ++ String.ofList word ++ "'")
    | some letter => throw ("invalid option -- '" ++ String.singleton letter ++ "'")
  let others := leading.filter fun word => !isOption word
  return (letters, others ++ (arguments.drop leading.length).tail)

/-- Lets the intervals of the arguments pass one after the other. -/
def sleep (arguments : List (List Char)) : Run Unit := do
  match options [] arguments with
  | .error reason => misuse reason
  | .ok (_, words) =>
      let wrong := words.filter fun word => (interval? word).isNone
      if arguments.isEmpty then misuse "missing operand"
      else if wrong.isEmpty then
        let total := (words.filterMap interval?).foldl (· + ·) 0
        rest (min total never)
        if never ≤ total then stop .endless
        finish 0
      else
        for word in wrong do
          refuse ("invalid time interval " ++ String.ofList (Quote.text word))
        hint

/-- Copies what a descriptor has to the standard output. -/
def copy (descriptor : Nat) : Run Unit := do
  match ← receive descriptor with
  | some text => write text
  | none =>
      match (← get).channel? descriptor with
      | some .directory => refuse "-: Is a directory"
      | some _ => refuse "-: Bad file descriptor"
      | none =>
          refuse "-: Bad file descriptor"
          refuse "closing standard input: Bad file descriptor"

/-- Copies a file to the standard output. -/
def copyFile (name : List Char) : Run Unit := do
  let state ← get
  let complaint (reason : String) : Run Unit :=
    refuse (String.ofList (Quote.name name) ++ ": " ++ reason)
  match state.here.resolve (String.ofList name) with
  | .error .notDirectory => complaint "Not a directory"
  | .error .nameTooLong => complaint "File name too long"
  | .error _ => complaint "No such file or directory"
  | .ok place =>
      match state.files.file? place with
      | some .directory => complaint "Is a directory"
      | some .device =>
          if place = ["dev", "tty"] then complaint "No such device or address"
          else if place ≠ ["dev", "null"] then stop .endless
      | some (.descriptor number) =>
          if (state.channel? number).isNone then complaint "No such file or directory"
          else copy number
      | _ => write (state.contentOf place)

/-- Copies files, or the standard input. -/
def cat (arguments : List (List Char)) : Run Unit := do
  finish 0
  match options [] arguments with
  | .error reason => misuse reason
  | .ok (_, words) =>
      if ((← get).channel? 1).isNone then refuse "standard output: Bad file descriptor"
      else
        for word in if words.isEmpty then [['-']] else words do
          if word = ['-'] then copy 0 else copyFile word

def echoWith (arguments : List (List Char)) (newline escapes : Bool) : Effect :=
  match arguments with
  | ('-' :: c :: letters) :: rest =>
      if (c :: letters).all fun c => "neE".toList.contains c then
        let last := ((c :: letters).reverse.find? (· ≠ 'n')).map (· == 'e')
        echoWith rest (newline && !(c :: letters).contains 'n') (last.getD escapes)
      else plain
  | _ => plain
where
  plain : Effect :=
    let joined := List.intercalate [' '] arguments
    let (text, whole) := if escapes then unescape true joined.length joined else (joined, true)
    .writes (if newline && whole then text ++ ['\n'] else text)

/-- Passes an effect on in the name of the program. -/
def pass (effect : Effect) : Run Unit := do
  for complaint in effect.complaints do
    refuse (String.ofList complaint)
  finish effect.status
  write effect.stdout

/-- The bucket that a shell keeps a name in. -/
def bucket (name : List Char) : Nat :=
  name.foldl (fun sum c => sum + c.toNat) ((name.headD '\x00').toNat * 16) % 39

/-- The variables that a process passes on, in the order of their buckets. -/
def environment (state : State) : List (List Char × List Char) :=
  let exported := state.bindings.filterMap fun found =>
    if found.exported then found.value.map fun value => (found.name, value) else none
  exported.mergeSort fun a b => bucket a.1 ≤ bucket b.1

/-- Shows the environment, or the values of some names in it. -/
def printEnvironment (names : List (List Char)) : Run Unit := do
  let entries := environment (← get)
  finish 0
  if names.isEmpty then
    write (entries.flatMap fun entry => entry.1 ++ '=' :: entry.2 ++ ['\n'])
  else
    for name in names do
      match entries.lookup name with
      | some value => write (value ++ ['\n'])
      | none => finish 1

/-- Shows the environment as the arguments ask for it. -/
def printVariables : List (List Char) → Run Unit
  | ['-', '-'] :: rest => printEnvironment rest
  | ('-' :: letter :: _) :: _ => do
      misuse ("invalid option -- '" ++ String.singleton letter ++ "'")
      finish 2
  | names => printEnvironment names

/-- Ends a process that cannot change its environment; `complain` tells why. -/
def giveUp {α : Type} (complain : String → Run Unit) (reason : String) : Run α := do
  complain reason
  finish 125
  throw .exited

/-- Takes a variable out of the environment. -/
def dropVariable (name : List Char) : Run Unit := do
  if name.isEmpty || name.contains '=' then
    giveUp refuse ("cannot unset " ++ String.ofList (Quote.text name) ++ ": Invalid argument")
  modify fun state => state.removeVariable name

/-- Changes the environment as the options in front of a command tell; finds what follows them. -/
def readChanges : Nat → (letters : List Char) → List (List Char) → Run (List (List Char))
  | 0, _, words => return words
  | fuel + 1, letters, words => do
      match letters, words with
      | 'i' :: rest, _ =>
          modify fun state => { state with bindings := [] }
          readChanges fuel rest words
      | ['u'], [] => giveUp misuse "option requires an argument -- 'u'"
      | ['u'], name :: words =>
          dropVariable name
          readChanges fuel [] words
      | 'u' :: name, _ =>
          dropVariable name
          readChanges fuel [] words
      | letter :: _, _ =>
          giveUp misuse ("invalid option -- '" ++ String.singleton letter ++ "'")
      | [], ['-', '-'] :: rest => return rest
      | [], ['-'] :: rest => readChanges fuel ['i'] rest
      | [], ('-' :: '-' :: name) :: _ =>
          giveUp misuse ("unrecognized option '--" ++ String.ofList name ++ "'")
      | [], ('-' :: letters) :: rest => readChanges fuel letters rest
      | [], words => return words

/-- Assigns the variables in front of a command, and finds the command. -/
def assignVariables : List (List Char) → Run (List (List Char))
  | [] => return []
  | word :: rest => do
      match definition? word with
      | some (name, value) =>
          modify fun state => state.setVariable ⟨name, some value, true, false⟩
          assignVariables rest
      | none => return word :: rest

/-- Changes the environment as the words in front of a command tell, and finds the command; without
one the environment is shown. -/
def changeEnvironment (called : List Char) (arguments : List (List Char)) :
    Run (List (List Char)) := do
  modify fun state => { state with name := called }
  let size := arguments.foldl (fun size word => size + word.length + 1) 1
  let words ← assignVariables (← readChanges size [] arguments)
  if words.isEmpty then printEnvironment []
  return words

/-- Complains about a command that cannot be run. -/
def refuseCommand (name : List Char) (error : SpawnError) : Run Unit := do
  let (reason, status) := match if name.isEmpty then .notFound else error with
    | .permissionDenied => ("Permission denied", 126)
    | .notDirectory => ("Not a directory", 126)
    | .nameTooLong => ("File name too long", 126)
    | _ => ("No such file or directory", 127)
  refuse (String.ofList (Quote.text name) ++ ": " ++ reason)
  if status = 127 && name.any Integer.isBlank then
    refuse "use -[v]S to pass options in shebang lines"
  finish status

/-- What the program of a name does with its arguments; it may be called by another name. -/
def run (name : String) (called : List Char) (arguments : List (List Char)) : Run Unit := do
  modify fun state => { state with name := called }
  match name with
  | "sleep" => sleep arguments
  | "cat" => cat arguments
  | "echo" => pass (echoWith arguments true false)
  | "test" => pass (Condition.test (← get).query false arguments)
  | "[" => pass (Condition.test (← get).query true arguments)
  | "printenv" => printVariables arguments
  | "false" => finish 1
  | _ => finish 0

end NodeInventory.Command.Shell.Program
