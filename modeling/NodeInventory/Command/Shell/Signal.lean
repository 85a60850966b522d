import NodeInventory.Command.Shell.Integer

/-!
# Signals

Signals are known by their numbers; some have names, and some are told when they end a command.
-/

namespace NodeInventory.Command.Shell.Signal

def quiet : List Nat := [2, 13]

/-- Tells that a child has ended. -/
def child : Nat := 17

/-- The numbers of signals are below this one. -/
def bound : Nat := 65

/-- The names of signals, in order from the first signal on. -/
def names : List String :=
  ["HUP", "INT", "QUIT", "ILL", "TRAP", "ABRT", "BUS", "FPE", "KILL", "USR1", "SEGV", "USR2",
    "PIPE", "ALRM", "TERM", "16", "CHLD", "CONT", "STOP", "TSTP", "TTIN", "TTOU", "URG", "XCPU",
    "XFSZ", "VTALRM", "PROF", "WINCH", "IO", "PWR", "SYS", "32", "33", "RTMIN"]
    ++ (List.range 15).map (fun n => "RTMIN+" ++ toString (n + 1))
    ++ (List.range 14).map (fun n => "RTMAX-" ++ toString (14 - n)) ++ ["RTMAX"]

def name? (signal : Nat) : Option String :=
  if signal = 0 then none else names[signal - 1]?

/-- The signal of a number or a name in any case; a script's own end has a name here too. -/
def ofText? (withEnd : Bool) (text : List Char) : Option Nat :=
  if !text.isEmpty && text.all Char.isDigit then
    (Integer.count? text).filter (· < bound)
  else
    let wanted := String.ofList (text.map Char.toUpper)
    if withEnd && wanted = "EXIT" then some 0
    else (names.findIdx? (· = wanted)).map (· + 1)

/-- What a process does that takes no care of a signal. -/
inductive Effect
  | death
  | nothing
  | halt
deriving DecidableEq, Repr

def effect (signal : Nat) : Effect :=
  if [0, 17, 18, 23, 28].contains signal then .nothing
  else if [19, 20, 21, 22].contains signal then .halt
  else .death

/-- Signals that no process can take care of. -/
def isCertain (signal : Nat) : Bool := signal == 9 || signal == 19

/-- How a signal is called that has ended a command. -/
def title (signal : Nat) : String :=
  match signal with
  | 1 => "Hangup"
  | 2 => "Interrupt"
  | 3 => "Quit"
  | 4 => "Illegal instruction"
  | 5 => "Trace/breakpoint trap"
  | 6 => "Aborted"
  | 7 => "Bus error"
  | 8 => "Floating point exception"
  | 9 => "Killed"
  | 10 => "User defined signal 1"
  | 11 => "Segmentation fault"
  | 12 => "User defined signal 2"
  | 13 => "Broken pipe"
  | 14 => "Alarm clock"
  | 15 => "Terminated"
  | 16 => "Stack fault"
  | 24 => "CPU time limit exceeded"
  | 25 => "File size limit exceeded"
  | 26 => "Virtual timer expired"
  | 27 => "Profiling timer expired"
  | 29 => "I/O possible"
  | 30 => "Power failure"
  | 31 => "Bad system call"
  | signal =>
      if signal < 34 then "Unknown signal " ++ toString signal
      else "Real-time signal " ++ toString (signal - 34)

end NodeInventory.Command.Shell.Signal
