import NodeInventory.Failure

/-!
# Settings
-/

namespace NodeInventory

open Text

structure Settings where
  address : String
  maxAttempts : UInt32
  retryDelay : Duration
  backoffFactor : Binary64
  commandTimeout : Duration
  /-- Absent for a single run. -/
  interval : Option Duration
deriving DecidableEq, Repr

inductive SettingsFault
  | emptyAddress
  | notHttp (address : List Char)
  | noAttempts
  | lowFactor (factor : Binary64)
  | zeroCommandTimeout
  | zeroInterval
deriving DecidableEq, Repr

def SettingsFault.message : SettingsFault → String
  | .emptyAddress => "discovery address is empty"
  | .notHttp address => "discovery address must be http(s): " ++ String.ofList address
  | .noAttempts => "max attempts must be at least 1"
  | .lowFactor factor => "backoff factor must be >= 1.0, got " ++ factor.text
  | .zeroCommandTimeout => "command timeout must be positive"
  | .zeroInterval => "interval must be positive"

namespace Settings

def default : Settings where
  address := "http://127.0.0.1:5000"
  maxAttempts := 10
  retryDelay := .ofMillis 1000
  backoffFactor := 1
  commandTimeout := .ofMillis 10000
  interval := none

variable (settings : Settings)

def trimmedAddress : List Char := trim settings.address.toList

def isHttp (address : List Char) : Bool :=
  "http://".toList.isPrefixOf address || "https://".toList.isPrefixOf address

/-- The first fault, in the order of the settings. -/
def fault? : Option SettingsFault :=
  if settings.trimmedAddress = [] then some .emptyAddress
  else if !isHttp settings.trimmedAddress then some (.notHttp settings.trimmedAddress)
  else if settings.maxAttempts = 0 then some .noAttempts
  else if !settings.backoffFactor.isFinite || settings.backoffFactor.lt 1 then
    some (.lowFactor settings.backoffFactor)
  else if settings.commandTimeout.isZero then some .zeroCommandTimeout
  else if settings.interval.any Duration.isZero then some .zeroInterval
  else none

def validate : Except Failure Unit :=
  match settings.fault? with
  | some fault => .error (.settings fault.message)
  | none => .ok ()

/-- Slashes at the end of the address are dropped before the path is put behind it. -/
def url : String :=
  String.ofList ((settings.trimmedAddress.reverse.dropWhile (· = '/')).reverse
    ++ "/discovery".toList)

def policy : RetryPolicy :=
  .of settings.maxAttempts settings.retryDelay settings.backoffFactor

def publisher : Publisher := ⟨settings.url, settings.policy⟩

end Settings

end NodeInventory
