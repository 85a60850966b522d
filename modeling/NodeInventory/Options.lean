import NodeInventory.Settings

/-!
# Settings from the command line and the environment

Arguments are taken from left to right and the first error wins.  The environment is asked only for
settings that the command line does not give, and defaults stand for what is left.
-/

namespace NodeInventory

open Number

/-- A setting with an option and an environment variable of its own. -/
inductive Setting
  | address | maxAttempts | retryDelay | backoffFactor | commandTimeout | interval
deriving DecidableEq, Repr

namespace Setting

/-- In the order in which the environment is asked. -/
def all : List Setting :=
  [address, maxAttempts, retryDelay, backoffFactor, commandTimeout, interval]

/-- The name of the option, without its dashes. -/
def option : Setting → String
  | address => "discovery-address"
  | maxAttempts => "max-attempts"
  | retryDelay => "retry-delay-ms"
  | backoffFactor => "backoff-factor"
  | commandTimeout => "command-timeout-ms"
  | interval => "interval-secs"

def variableName : Setting → String
  | address => "DISCOVERY_ADDRESS"
  | maxAttempts => "DISCOVERY_MAX_ATTEMPTS"
  | retryDelay => "DISCOVERY_RETRY_DELAY_MS"
  | backoffFactor => "DISCOVERY_BACKOFF_FACTOR"
  | commandTimeout => "DISCOVERY_COMMAND_TIMEOUT_MS"
  | interval => "DISCOVERY_INTERVAL_SECS"

end Setting

inductive OptionError
  /-- A value that does not parse. -/
  | badValue
  /-- An option without its value. -/
  | missingValue
  | unknownArgument
  /-- An option given twice. -/
  | repeated
  /-- A value for a flag. -/
  | needlessValue
  | helpRequested
  | versionRequested
deriving DecidableEq, Repr

/-- The settings given so far; times are in the units of their options. -/
structure Given where
  address : Option String
  maxAttempts : Option UInt32
  retryDelayMs : Option Nat
  backoffFactor : Option Binary64
  commandTimeoutMs : Option Nat
  intervalSecs : Option Nat
  dryRun : Bool
deriving DecidableEq, Repr

namespace Given

def nothing : Given := ⟨none, none, none, none, none, none, false⟩

def has (given : Given) : Setting → Bool
  | .address => given.address.isSome
  | .maxAttempts => given.maxAttempts.isSome
  | .retryDelay => given.retryDelayMs.isSome
  | .backoffFactor => given.backoffFactor.isSome
  | .commandTimeout => given.commandTimeoutMs.isSome
  | .interval => given.intervalSecs.isSome

/-- A whole number of 32 bits; a minus sign is allowed before zero. -/
def word32? (text : List Char) : Option UInt32 :=
  match text with
  | '-' :: digits =>
      if digits ≠ [] ∧ digits.all (· == '0') then some 0 else none
  | _ => (natural? (UInt32.size - 1) text).map UInt32.ofNat

def word64? (text : List Char) : Option Nat := natural? (UInt64.size - 1) text

/-- Gives a setting the value that a text spells. -/
def set (given : Given) (setting : Setting) (text : String) : Option Given :=
  match setting with
  | .address => some { given with address := some text }
  | .maxAttempts => (word32? text.toList).map fun n => { given with maxAttempts := some n }
  | .retryDelay => (word64? text.toList).map fun n => { given with retryDelayMs := some n }
  | .backoffFactor => (Binary64.ofText? text).map fun x => { given with backoffFactor := some x }
  | .commandTimeout => (word64? text.toList).map fun n => { given with commandTimeoutMs := some n }
  | .interval => (word64? text.toList).map fun n => { given with intervalSecs := some n }

def settings (given : Given) : Settings where
  address := given.address.getD Settings.default.address
  maxAttempts := given.maxAttempts.getD Settings.default.maxAttempts
  retryDelay := (given.retryDelayMs.map .ofMillis).getD Settings.default.retryDelay
  backoffFactor := given.backoffFactor.getD Settings.default.backoffFactor
  commandTimeout := (given.commandTimeoutMs.map .ofMillis).getD Settings.default.commandTimeout
  interval := given.intervalSecs.map .ofSecs

end Given

/-- An argument by its form. -/
inductive Argument
  /-- Two dashes: only positional arguments follow. -/
  | divider
  | long (name : String) (value : Option String)
  | short (first : Char)
  | plain (text : String)
deriving DecidableEq, Repr

/-- A single dash is a plain argument. -/
def Argument.ofText (text : String) : Argument :=
  match text.toList with
  | ['-', '-'] => .divider
  | '-' :: '-' :: rest =>
      match rest.dropWhile (· != '=') with
      | [] => .long (String.ofList rest) none
      | _ :: value => .long (String.ofList (rest.takeWhile (· != '='))) (some (String.ofList value))
  | '-' :: c :: _ => .short c
  | _ => .plain text

/-- A command line that has been read so far.  A value in an argument of its own is not looked at
before the next option or the end, so a stray argument behind it is reported first. -/
structure Reading where
  given : Given
  /-- The last option, if its value has not been looked at yet or has still to come. -/
  pending : Option (Setting × Option String)
  divided : Bool
deriving DecidableEq, Repr

namespace Reading

def start : Reading := ⟨.nothing, none, false⟩

def assign (given : Given) (setting : Setting) (value : String) : Except OptionError Given :=
  if given.has setting then .error .repeated
  else match given.set setting value with
    | some given => .ok given
    | none => .error .badValue

/-- Looks at the value of the last option. -/
def settle (reading : Reading) : Except OptionError Given :=
  match reading.pending with
  | none => .ok reading.given
  | some (_, none) => .error .missingValue
  | some (setting, some value) => assign reading.given setting value

/-- An option in its long form. -/
def takeLong (reading : Reading) (name : String) (value : Option String) :
    Except OptionError Reading :=
  match Setting.all.find? fun setting => setting.option == name with
  | some setting => do
      let given ← reading.settle
      match value with
      | some value => return { reading with given := ← assign given setting value, pending := none }
      | none => return { reading with given := given, pending := some (setting, none) }
  | none =>
      if name ∈ ["dry-run", "help", "version"] then
        if value.isSome then .error .needlessValue
        else do
          let given ← reading.settle
          if name = "help" then .error .helpRequested
          else if name = "version" then .error .versionRequested
          else if given.dryRun then .error .repeated
          else return { reading with given := { given with dryRun := true }, pending := none }
      else .error .unknownArgument

def take (reading : Reading) (argument : String) : Except OptionError Reading :=
  if reading.divided then .error .unknownArgument
  else match Argument.ofText argument with
    | .divider => .ok { reading with divided := true }
    | .long name value => reading.takeLong name value
    | .short 'h' => reading.settle.bind fun _ => .error .helpRequested
    | .short 'V' => reading.settle.bind fun _ => .error .versionRequested
    | .short _ => .error .unknownArgument
    | .plain text =>
        match reading.pending with
        | some (setting, none) => .ok { reading with pending := some (setting, some text) }
        | _ => .error .unknownArgument

end Reading

/-- The value of a setting that is not given yet, if the environment has one. -/
def Given.ask (environment : String → Option String) (given : Given) (setting : Setting) :
    Except OptionError Given :=
  if given.has setting then .ok given
  else match environment setting.variableName with
    | none => .ok given
    | some value =>
        match given.set setting value with
        | some given => .ok given
        | none => .error .badValue

/-- The settings of the program, and whether it only shows its report. -/
structure Options where
  settings : Settings
  dryRun : Bool
deriving DecidableEq, Repr

def Options.parse (arguments : List String) (environment : String → Option String) :
    Except OptionError Options := do
  let reading ← arguments.foldlM Reading.take Reading.start
  let given ← reading.settle
  let given ← Setting.all.foldlM (Given.ask environment) given
  return ⟨given.settings, given.dryRun⟩

end NodeInventory
