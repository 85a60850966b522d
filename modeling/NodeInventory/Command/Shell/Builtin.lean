import NodeInventory.Command.Shell.Condition
import NodeInventory.Command.Shell.Printf
import NodeInventory.Command.Shell.Quote
import NodeInventory.Command.Shell.Switch

/-!
# Commands within the shell

Those of the shell's own commands that run no other commands.
-/

namespace NodeInventory.Command.Shell

/-- The files as a process sees them. -/
def State.here (state : State) : Files := { state.files with working := state.working }

def State.fileAt? (state : State) (path : List Char) : Option File :=
  state.here.fileAt? (String.ofList path)

/-- The file at a place, with what is open in place of a descriptor. -/
inductive Found
  | file (file : File)
  | channel (channel : Channel)
deriving DecidableEq, Repr

/-- What is at a path. -/
def State.found? (state : State) (path : List Char) : Option Found :=
  match state.fileAt? path with
  | some (.descriptor number) => (state.channel? number).map .channel
  | file? => file?.map .file

def State.isDirectory (state : State) (path : List Char) : Bool :=
  match state.found? path with
  | some (.file file) => file == .directory
  | some (.channel channel) => channel == .directory
  | none => false

/-- Whether an operator of conditions holds of a path. -/
def State.holds (state : State) (operator : String) (path : List Char) : Bool :=
  let found? := state.found? path
  let place? := (state.here.resolve (String.ofList path)).toOption
  match operator with
  | "-d" => state.isDirectory path
  | "-f" =>
      match found? with
      | some (.file file) => file == .document || file == .program
      | some (.channel (.file _)) => true
      | _ => false
  | "-c" =>
      match found? with
      | some (.file file) => file == .device
      | some (.channel channel) => (channel matches .nothing | .full | .zeros)
      | none => false
  | "-p" =>
      match found? with
      | some (.channel channel) => (channel matches .sink _ | .source _)
      | _ => false
  | "-x" => state.isDirectory path || found? == some (.file .program)
  | "-s" =>
      match found?, place? with
      | some (.file .device), _ | none, _ | _, none => false
      | some (.file .document), some place =>
          (match state.contents.lookup place with
            | some text => !text.isEmpty
            | none => place.head? ≠ some "proc")
      | some (.file _), _ => true
      | some (.channel channel), _ =>
          (match channel with
            | .directory => true
            | .file number =>
                (state.handles.lookup number).any fun handle =>
                  !(state.contentOf handle.path).isEmpty
            | _ => false)
  | "-e" | "-r" | "-w" | "-O" | "-G" => found?.isSome
  | "-h" | "-L" => state.here.isLink (String.ofList path)
  | "-k" => ["tmp", "var/tmp", "dev/shm"].any fun sticky => place? == some (Files.components sticky)
  | _ => false

/-- Whether two paths lead to one file. -/
def State.isSame (state : State) (left right : List Char) : Bool :=
  match state.here.resolve (String.ofList left), state.here.resolve (String.ofList right) with
  | .ok left, .ok right => left == right
  | _, _ => false

/-- What a process finds out about files. -/
def State.query (state : State) : Condition.Query := ⟨state.holds, state.isSame⟩

/-- The name before an equals sign, and the value behind it. -/
def definition? (word : List Char) : Option (List Char × List Char) :=
  match word.dropWhile (· ≠ '=') with
  | _ :: value => some (word.takeWhile (· ≠ '='), value)
  | [] => none

/-- The shell's own commands that run others or end something, or that look after jobs. -/
def controlNames : List String :=
  [".", "break", "command", "continue", "eval", "exec", "exit", "kill", "return", "type", "wait"]

namespace Run

def checkName (name : List Char) : Run Unit := do
  if !isName name then fail (name ++ ": bad variable name".toList)

/-- The name that a word starts with, up to an equals sign. -/
def nameIn (word : List Char) : Run (List Char) := do
  let name := word.takeWhile (· ≠ '=')
  checkName name
  return name

/-- Lists variables as commands that set them again. -/
def listVariables (command : List Char) (accept : Variable → Bool) : Run Unit := do
  let sorted := ((← get).bindings.filter accept).mergeSort fun a b =>
    String.ofList a.name ≤ String.ofList b.name
  let head := if command.isEmpty then [] else command ++ [' ']
  write (sorted.flatMap fun found =>
    let value := match found.value with
      | some text => '=' :: Quote.value text
      | none => []
    head ++ found.name ++ value ++ ['\n'])

/-- Assigns what a word defines, and changes what its variable is. -/
def declare (change : Variable → Variable) (word : List Char) : Run Unit := do
  let (name, value?) := match definition? word with
    | some (name, value) => (name, some value)
    | none => (word, none)
  checkName name
  if let some value := value? then assign name value
  modify fun state =>
    state.setVariable (change ((state.binding? name).getD ⟨name, none, false, false⟩))

def declareAll (command : String) (accept : Variable → Bool) (change : Variable → Variable)
    (arguments : List (List Char)) : Run Unit := do
  match arguments with
  | [] | ('-' :: 'p' :: _) :: _ => listVariables command.toList accept
  | _ =>
      let (_, rest) ← options "" arguments
      if rest.isEmpty then listVariables command.toList accept
      else
        rest.forM (declare change)
        finish 0

/-- Makes variables local to the function being run, or, with a `-`, the options. -/
def localVariables (arguments : List (List Char)) : Run Unit := do
  if (← get).hidden.isEmpty then fail "not in a function".toList
  finish 0
  for word in arguments do
    let state ← get
    match state.hidden with
    | [] => return
    | frame :: outer =>
        if word = ['-'] then
          let frame := { frame with options := some (frame.options.getD state.options) }
          set { state with hidden := frame :: outer }
        else
          let definition := definition? word
          let name := (definition.map (·.1)).getD word
          if definition.isNone then checkName name
          if !frame.bindings.any fun entry => entry.1 = name then
            let bindings := (name, state.binding? name) :: frame.bindings
            set { state with hidden := { frame with bindings } :: outer }
          if let some (_, value) := definition then assign name value

def unsetAll (arguments : List (List Char)) : Run Unit := do
  let (found, names) ← options "vf" arguments
  let functions := (found.getLast?).any fun entry => entry.1 = 'f'
  for name in names do
    if functions then
      modify fun state => { state with
        functions := state.functions.filter fun entry => entry.1 ≠ name }
    else unset (← nameIn name)
  finish 0

def shift (arguments : List (List Char)) : Run Unit := do
  let count ← number arguments 1
  let state ← get
  if state.arguments.length < count then fail "can't shift that many".toList
  set { state with
    arguments := state.arguments.drop count, optionAt := (1, none), status := 0 }

def setOptions (arguments : List (List Char)) : Run Unit := do
  if arguments.isEmpty then listVariables [] fun found => found.value.isSome
  else
    let state ← get
    let given : Switches := ⟨state.options, arguments, false, false, []⟩
    match Switches.read false (arguments.length + 1) given with
    | .error reason => fail reason
    | .ok switches =>
        set { state with options := switches.options, status := 0 }
        for asCommands in switches.tables do
          write (switchTable asCommands switches.options)
        refuseJobControl
        if switches.replace || !switches.rest.isEmpty then
          modify fun state => { state with arguments := switches.rest, optionAt := (1, none) }

/-- Assigns a variable that goes to the commands a process starts. -/
def assignExported (name value : List Char) : Run Unit := do
  assign name value
  modify fun state =>
    match state.binding? name with
    | some found => state.setVariable { found with exported := true }
    | none => state

/-- Goes on from one path to another by its components, without a look at files.  Two slashes at the
start are kept, but not three. -/
def onward (route path : List Char) : List Char :=
  let startOf (path : List Char) : List Char :=
    match path with
    | ['/', '/'] => ['/', '/']
    | '/' :: '/' :: c :: _ => if c = '/' then ['/'] else ['/', '/']
    | _ => ['/']
  let isAbsolute := path.head? = some '/'
  let start := startOf (if isAbsolute then path else route)
  let components (path : List Char) : List (List Char) :=
    (Text.split (· == '/') path).filter (!·.isEmpty)
  let step (place : List (List Char)) (component : List Char) : List (List Char) :=
    if component = ['.'] then place
    else if component = ['.', '.'] then place.dropLast
    else place ++ [component]
  let place := if isAbsolute then [] else components route
  start ++ List.intercalate ['/'] ((components path).foldl step place)

/-- Goes to a directory: by its path as it is written, or by the files on its way.  Tells whether
there is one. -/
def goTo (physical : Bool) (path : List Char) : Run Bool := do
  let state ← get
  let route := onward state.route path
  match state.here.resolve (String.ofList (if physical then path else route)) with
  | .error _ => return false
  | .ok place =>
      if state.files.file? place ≠ some .directory then return false
      let route := if physical then pathOf place else route
      let before := state.route
      set { state with working := place }
      assignExported "OLDPWD".toList before
      modify fun state => { state with route }
      assignExported "PWD".toList route
      return true

/-- Whether the last of some letters asks for the files on the way. -/
def isPhysical (found : List (Char × List Char)) : Bool :=
  (found.getLast?).any fun entry => entry.1 = 'P'

def changeDirectory (arguments : List (List Char)) : Run Unit := do
  let (found, rest) ← options "LP" arguments
  let state ← get
  let wanted? := match rest with
    | [] => state.value? "HOME".toList
    | ['-'] :: _ => state.value? "OLDPWD".toList
    | word :: _ => some word
  let wanted := wanted?.getD []
  let searched : List (List Char) := match wanted with
    | '/' :: _ | ['.'] | '.' :: '/' :: _ | ['.', '.'] | '.' :: '.' :: '/' :: _ => []
    | _ => ((state.value? "CDPATH".toList).map fun path => Text.split (· == ':') path).getD []
  let wanted := if wanted.isEmpty then ['.'] else wanted
  let tried := searched.map fun directory =>
    (directory, if directory.isEmpty then wanted else directory ++ '/' :: wanted)
  let (directory, path) := (tried.find? fun entry => state.isDirectory entry.2).getD ([], wanted)
  if !(← goTo (isPhysical found) path) then fail ("can't cd to ".toList ++ wanted)
  if rest.head? = some ['-'] || !directory.isEmpty then write ((← get).route ++ ['\n'])
  else finish 0

def printDirectory (arguments : List (List Char)) : Run Unit := do
  let (found, _) ← options "LP" arguments
  let state ← get
  write ((if isPhysical found then pathOf state.working else state.route) ++ ['\n'])

/-- A line from the standard input, and whether it has an end. -/
def takeLine (raw : Bool) : Run (List Glyph × Bool) := do
  match ← supply? 0 with
  | none => return ([], false)
  | some supply =>
      let rec scan : Nat → List (Nat × List Char) → List Glyph → Nat →
          (List Glyph × Bool) × List (Nat × List Char) × Nat
        | 0, texts, line, time => ((line.reverse, false), texts, time)
        | _ + 1, [], line, time => ((line.reverse, false), [], time)
        | fuel + 1, (_, []) :: texts, line, time => scan fuel texts line time
        | fuel + 1, (ready, c :: rest) :: texts, line, time =>
            let texts := (ready, rest) :: texts
            let time := max time ready
            if c == '\n' then ((line.reverse, true), texts, time)
            else if c == '\\' && !raw then
              match rest with
              | '\n' :: rest => scan fuel ((ready, rest) :: texts.tail) line time
              | d :: rest => scan fuel ((ready, rest) :: texts.tail) (⟨d, true⟩ :: line) time
              | [] => scan fuel texts line time
            else if c == '\x00' then scan fuel texts line time
            else scan fuel texts (.plain c :: line) time
      let size := (supply.texts.map fun entry => entry.2.length + 1).foldl (· + ·) 1
      let ((line, whole), texts, time) := scan size supply.texts [] 0
      leave 0 texts
      if !whole then
        match supply.closes with
        | none => throw .endless
        | some closes => if closes ≠ 0 then waitUntil (max time closes)
      else if time ≠ 0 then waitUntil time
      return (line, whole)

/-- Reads a line into variables. -/
def readLine (arguments : List (List Char)) : Run Unit := do
  let (found, names) ← options "p:r" arguments
  if names.isEmpty then fail "arg count".toList
  let (line, whole) ← takeLine (found.any fun entry => entry.1 = 'r')
  let words := (← get).separators.deal names.length line
  for (name, word) in names.zip words do
    assign (← nameIn name) word
  finish (if whole then 0 else 1)

/-- What is found when the options of arguments are read. -/
structure FoundOption where
  letter : Char
  /-- What the option's argument is set to, or nothing if it is to be unset. -/
  value : Option (List Char)
  complaint : Option (List Char)
  /-- The next argument, and the place within the one before it. -/
  position : Nat × Option Nat
  ended : Bool

/-- The next option among arguments. -/
def nextOption (allowed : List Char) (arguments : List (List Char)) (position : Nat × Option Nat) :
    FoundOption :=
  let (index, place) := position
  let current := arguments[index - 2]?.getD []
  let inside : List Char := match place with
    | some place => if index ≤ 1 then [] else current.drop place
    | none => []
  let ended (index : Nat) : FoundOption := ⟨'?', none, none, (index, none), true⟩
  let (letters, index) : List Char × Nat :=
    if !inside.isEmpty then (inside, index)
    else match arguments[index - 1]? with
      | some ('-' :: c :: rest) => (c :: rest, index + 1)
      | _ => ([], index)
  match letters with
  | [] => ended index
  | c :: rest =>
      if inside.isEmpty && c = '-' && rest.isEmpty then ended index
      else
        let silent := allowed.head? = some ':'
        let size := (arguments[index - 2]?.getD []).length
        let next : Nat × Option Nat := (index, some (size - rest.length))
        if c = ':' || !allowed.contains c then
          if silent then ⟨'?', some [c], none, next, false⟩
          else ⟨'?', none, some ("Illegal option -".toList ++ [c]), next, false⟩
        else if (allowed.dropWhile (· ≠ c)).drop 1 |>.head? |>.any (· = ':') then
          match rest, arguments[index - 1]? with
          | [], none =>
              if silent then ⟨':', some [c], none, (index, some size), false⟩
              else
                let complaint := "No arg for -".toList ++ c :: " option".toList
                ⟨'?', none, some complaint, (index, some size), false⟩
          | [], some value => ⟨c, some value, none, (index + 1, none), false⟩
          | value, _ => ⟨c, some value, none, (index, none), false⟩
        else ⟨c, some [], none, next, false⟩

/-- Reads the next option of the script's arguments. -/
def getOption (arguments : List (List Char)) : Run Unit := do
  match arguments with
  | allowed :: name :: words =>
      let state ← get
      let words := if words.isEmpty then state.arguments else words
      let found := nextOption allowed words state.optionAt
      if let some complaint := found.complaint then let _ ← send 2 (complaint ++ ['\n'])
      if !found.ended then
        match found.value with
        | some value => assign "OPTARG".toList value
        | none => unset "OPTARG".toList
      assign "OPTIND".toList (toString found.position.1).toList
      assign (← nameIn name) [found.letter]
      modify fun state => { state with optionAt := found.position }
      finish (if found.ended then 1 else 0)
  | _ => fail "Usage: getopts optstring var [arg...]".toList

/-- Sets what is done on some signals, up to a word that names none. -/
def setUntilUnknown (action? : Option (List Char)) : List (List Char) → Run (Option (List Char))
  | [] => return none
  | word :: rest => do
      match Signal.ofText? true word with
      | none => return some word
      | some signal =>
          modify fun state =>
            let others := state.traps.filter fun entry => entry.1 ≠ signal
            { state with traps := (action?.map fun action => (signal, action)).toList ++ others }
          setUntilUnknown action? rest

/-- Sets what is done on signals, or lists it. -/
def setTraps (arguments : List (List Char)) : Run Unit := do
  let (_, rest) ← options "" arguments
  let name (signal : Nat) : List Char := ((Signal.name? signal).getD "EXIT").toList
  finish 0
  match rest with
  | [] =>
      let sorted := (← get).traps.mergeSort fun a b => a.1 ≤ b.1
      write (sorted.flatMap fun entry =>
        "trap -- ".toList ++ Quote.value entry.2 ++ ' ' :: name entry.1 ++ ['\n'])
  | first :: later =>
      let (action?, names) :=
        let isSignal := first.all Char.isDigit && (Integer.count? first).any (· < Signal.bound)
        if later.isEmpty || isSignal then (none, rest)
        else (if first = ['-'] then none else some first, later)
      match ← setUntilUnknown action? names with
      | none => return
      | some word =>
          let _ ← send 2 ("trap: ".toList ++ word ++ ": bad trap\n".toList)
          finish 1

/-- What a name stands for when it is used as a command. -/
inductive Meaning
  | keyword
  | function
  | special
  | builtin
  | file (path : List Char)
  | unknown

/-- What is told about a name, briefly or not; `none` if it stands for nothing. -/
def Meaning.text? (meaning : Meaning) (name : List Char) (brief : Bool) : Option (List Char) :=
  let told (short : List Char) (long : String) : Option (List Char) :=
    some ((if brief then short else name ++ long.toList) ++ ['\n'])
  match meaning with
  | .keyword => told name " is a shell keyword"
  | .function => told name " is a shell function"
  | .special => told name " is a special shell builtin"
  | .builtin => told name " is a shell builtin"
  | .file path => told path (" is " ++ String.ofList path)
  | .unknown => none

/-- Tells about names, in full or briefly. -/
def describe (brief : Bool) (entries : List (List Char × Meaning)) : Effect :=
  let found := entries.map fun entry => (entry.1, entry.2.text? entry.1 brief)
  let told (entry : List Char × Option (List Char)) : List Char :=
    entry.2.getD (if brief then [] else entry.1 ++ ": not found\n".toList)
  ⟨found.flatMap told, [], if found.any (·.2.isNone) then 127 else 0⟩

end Run

open Run

/-- The shell's own commands that need no more than their arguments. -/
def builtin? (name : String) : Option (List (List Char) → Run Unit) :=
  match name with
  | ":" | "true" => some fun _ => finish 0
  | "false" => some fun _ => finish 1
  | "echo" => some fun arguments => emit (echo arguments)
  | "printf" => some fun arguments => emit (printf arguments)
  | "test" => some fun arguments => do emit (Condition.test (← get).query false arguments)
  | "[" => some fun arguments => do emit (Condition.test (← get).query true arguments)
  | "cd" | "chdir" => some changeDirectory
  | "pwd" => some printDirectory
  | "export" => some (declareAll name (·.exported) fun found => { found with exported := true })
  | "readonly" => some (declareAll name (·.readonly) fun found => { found with readonly := true })
  | "local" => some localVariables
  | "unset" => some unsetAll
  | "shift" => some shift
  | "set" => some setOptions
  | "read" => some readLine
  | "getopts" => some getOption
  | "trap" => some setTraps
  | "times" => some fun _ => write "0m0.000000s 0m0.000000s\n0m0.000000s 0m0.000000s\n".toList
  | _ => none

end NodeInventory.Command.Shell
