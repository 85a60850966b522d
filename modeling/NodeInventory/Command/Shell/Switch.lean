import NodeInventory.Command.Shell.State

/-!
# Options

The options that the shell is started with or that a script sets, and how commands read theirs.
-/

namespace NodeInventory.Command.Shell

/-- The options by name, some with a letter. -/
def allSwitches : List (String × Option Char) :=
  [("errexit", some 'e'), ("noglob", some 'f'), ("ignoreeof", some 'I'), ("interactive", some 'i'),
    ("monitor", some 'm'), ("noexec", some 'n'), ("stdin", some 's'), ("xtrace", some 'x'),
    ("verbose", some 'v'), ("vi", some 'V'), ("emacs", some 'E'), ("noclobber", some 'C'),
    ("allexport", some 'a'), ("notify", some 'b'), ("nounset", some 'u'), ("privileged", some 'p'),
    ("nolog", none), ("debug", none)]

/-- The letters of the options that are on. -/
def switchLetters (options : List String) : List Char :=
  allSwitches.reverse.filterMap fun entry =>
    if options.contains entry.1 then entry.2 else none

/-- The options as a table, or as commands that set them again. -/
def switchTable (asCommands : Bool) (options : List String) : List Char :=
  let row (name : String) : String :=
    let isOn := options.contains name
    if asCommands then (if isOn then "set -o " else "set +o ") ++ name ++ "\n"
    else
      String.ofList (name.toList ++ List.replicate (16 - name.length) ' ')
        ++ (if isOn then "on" else "off") ++ "\n"
  let rows := String.join (allSwitches.map fun entry => row entry.1)
  ((if asCommands then "" else "Current option settings\n") ++ rows).toList

/-- What the arguments that start the shell or `set` come to. -/
structure Switches where
  options : List String
  rest : List (List Char)
  /-- Whether a command text is the next argument. -/
  command : Bool
  /-- Whether the arguments are replaced even if none are left. -/
  replace : Bool
  /-- Tables that have been asked for, as commands or not. -/
  tables : List Bool
deriving DecidableEq, Repr

namespace Switches

def turn (name : String) (on : Bool) (options : List String) : List String :=
  if on then if options.contains name then options else name :: options
  else options.filter (· ≠ name)

def illegal (rest : List Char) : List Char := "Illegal option -".toList ++ rest

/-- The letters of one argument. -/
def letters (start on : Bool) : List Char → Switches → Except (List Char) Switches
  | [], switches => .ok switches
  | 'c' :: rest, switches =>
      if start then letters start on rest { switches with command := true }
      else .error (illegal ['c'])
  | 'o' :: rest, switches =>
      match switches.rest with
      | [] => letters start on rest { switches with tables := switches.tables ++ [!on] }
      | name :: later =>
          if allSwitches.any fun entry => entry.1.toList = name then
            letters start on rest { switches with
              options := turn (String.ofList name) on switches.options, rest := later }
          else .error (illegal ("o ".toList ++ name))
  | c :: rest, switches =>
      if start && c == 'l' then letters start on rest switches
      else
        match allSwitches.find? fun entry => entry.2 = some c with
        | some (name, _) =>
            letters start on rest { switches with options := turn name on switches.options }
        | none => .error (illegal [c])

/-- Reads options; `start` tells that they start the shell. -/
def read (start : Bool) : Nat → Switches → Except (List Char) Switches
  | 0, switches => .ok switches
  | fuel + 1, switches =>
      match switches.rest with
      | ['-'] :: rest =>
          let options := turn "xtrace" false (turn "verbose" false switches.options)
          .ok { switches with rest, options := if start then switches.options else options }
      | ['-', '-'] :: rest => .ok { switches with rest, replace := !start && rest.isEmpty }
      | (sign :: found) :: rest => do
          if sign = '-' || sign = '+' then
            let switches ← letters start (sign == '-') found { switches with rest }
            read start fuel switches
          else return switches
      | _ => .ok switches

end Switches

/-- Reads the options of a command: each letter that is allowed, with an argument if a colon
follows it there, and the arguments after them. -/
def readOptions (allowed : List Char) : Nat → List (List Char) →
    Except (List Char) (List (Char × List Char) × List (List Char))
  | 0, arguments => .ok ([], arguments)
  | fuel + 1, arguments =>
      match arguments with
      | ['-', '-'] :: rest => .ok ([], rest)
      | ('-' :: c :: more) :: rest =>
          match (allowed.dropWhile (· ≠ c)).drop 1, allowed.contains c && c ≠ ':' with
          | _, false => .error ("Illegal option -".toList ++ [c])
          | ':' :: _, true =>
              match more, rest with
              | [], [] => .error ("No arg for -".toList ++ c :: " option".toList)
              | [], value :: rest => do
                  let (found, rest) ← readOptions allowed fuel rest
                  return ((c, value) :: found, rest)
              | value, rest => do
                  let (found, rest) ← readOptions allowed fuel rest
                  return ((c, value) :: found, rest)
          | _, true => do
              let rest := if more.isEmpty then rest else ('-' :: more) :: rest
              let (found, rest) ← readOptions allowed fuel rest
              return ((c, []) :: found, rest)
      | _ => .ok ([], arguments)

namespace Run

/-- Reads the options of a command, or fails. -/
def options (allowed : String) (arguments : List (List Char)) :
    Run (List (Char × List Char) × List (List Char)) := do
  let size := (arguments.map fun word => word.length + 1).foldl (· + ·) 0
  match readOptions allowed.toList (size + 1) arguments with
  | .ok found => return found
  | .error reason => fail reason

/-- The number that an argument has to be, or another one without an argument. -/
def number (arguments : List (List Char)) (otherwise : Nat) : Run Nat := do
  match arguments with
  | [] => return otherwise
  | word :: _ =>
      match Integer.count? word with
      | some n => return n
      | none => fail ("Illegal number: ".toList ++ word)

end Run

end NodeInventory.Command.Shell
