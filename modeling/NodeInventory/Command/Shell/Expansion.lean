import NodeInventory.Command.Shell.Arithmetic
import NodeInventory.Command.Shell.Switch
import NodeInventory.Number.Literal

/-!
# Expanding words

Parameters, sums and the output of commands are put in place of the pieces that stand for them.
What runs such commands is given from outside.
-/

namespace NodeInventory.Command.Shell

/-- How a part of a word is expanded. -/
structure Manner where
  /-- Whether it stands within double quotes. -/
  quoted : Bool
  /-- Whether the parameter that it belongs to stands in double quotes, which do not end here. -/
  enclosed : Bool
  /-- Whether it may become several words. -/
  split : Bool
  /-- Whether it stands behind a parameter, so that its own text is split too. -/
  nested : Bool
  /-- Whether it is an assigned value, where a home may stand behind each colon. -/
  assigned : Bool
deriving DecidableEq, Repr

namespace Manner

/-- Words of a command. -/
def words : Manner := ⟨false, false, true, false, false⟩

/-- A text that stays whole. -/
def whole : Manner := ⟨false, false, false, false, false⟩

def value : Manner := ⟨false, false, false, false, true⟩

/-- The inside of double quotes. -/
def quotes : Manner := ⟨true, true, false, false, false⟩

end Manner

/-- The pieces up to the close of what is open, and those behind it. -/
def untilClose (depth : Nat) : List Piece → List Piece × List Piece
  | [] => ([], [])
  | piece :: rest =>
      let depth' := match piece with
        | .parameter parameter => if parameter.nests then depth + 1 else depth
        | .sum => depth + 1
        | .close | .closeSum => depth - 1
        | _ => depth
      if depth' = 0 then ([], rest)
      else
        let (inside, behind) := untilClose depth' rest
        (piece :: inside, behind)

namespace Run

/-- The atoms of a text that has been expanded. -/
def atomsOf (manner : Manner) (text : List Char) : List Atom :=
  if manner.quoted then
    text.flatMap fun c => if c = argumentEnd then [.cut, .mark] else [.glyph ⟨c, true⟩]
  else if manner.split then .edge :: text.map .loose
  else text.map fun c => .glyph (.plain c)

/-- What all arguments come to as one text. -/
def joinedArguments : Run (List Char) := do
  let state ← get
  let between := match state.value? "IFS".toList with
    | some separators => separators.take 1
    | none => [' ']
  return List.intercalate between state.arguments

/-- The value of a parameter that is not all arguments. -/
def valueOf (name : List Char) : Run (Option (List Char)) := do
  let state ← get
  let shown (n : Nat) : Option (List Char) := some (toString n).toList
  match name with
  | ['?'] => return shown state.status
  | ['$'] => return shown state.shell
  | ['#'] => return shown state.arguments.length
  | ['!'] => return state.lastJob.bind shown
  | ['-'] => return some (switchLetters state.options)
  | _ =>
      if name.all Char.isDigit then
        match Number.valueOf name with
        | 0 => return some state.name
        | n + 1 => return state.arguments[n]?
      else return state.value? name

/-- The value of a parameter as atoms, and as a text. -/
def parameter (manner : Manner) (name : List Char) :
    Run (Option (List Atom × List Char)) := do
  if name = ['@'] || name = ['*'] then
    let state ← get
    if manner.quoted && manner.split && name = ['@'] then
      let words := state.arguments.map fun word => .mark :: atomsOf manner word
      return some (List.intercalate [.cut] words, List.intercalate [argumentEnd] state.arguments)
    else
      let joined ← if !manner.quoted && manner.split then
        let between := if (state.value? "IFS".toList).isSome then argumentEnd else ' '
        pure (List.intercalate [between] state.arguments)
        else joinedArguments
      return some (atomsOf manner joined, joined)
  else return (← valueOf name).map fun text => (atomsOf manner text, text)

/-- Fails if a variable that has to be set is not. -/
def requireSet (name : List Char) (value? : Option (List Atom × List Char)) : Run Unit := do
  if value?.isNone && (← get).isOn "nounset" then
    fail (name ++ ": parameter not set".toList)

/-- The value of a sum. -/
def evaluateSum (text : List Char) : Run (List Char) := do
  let state ← get
  match Arithmetic.eval state.value? text with
  | .error .overflow => stop (.killed 8)
  | .error error => fail (error.message text)
  | .ok (result, assigned) =>
      for (name, value) in assigned.reverse do
        assign name (toString value).toList
      return (toString result).toList

/-- The home that a tilde with a name behind it stands for. -/
def home? (name : List Char) : Run (Option (List Char)) := do
  if name.isEmpty then return (← get).value? "HOME".toList
  else return if name = "root".toList then some "/root".toList else none

/-- What a tilde at the start of pieces expands to, and the pieces behind it. -/
def tilde? (manner : Manner) (pieces : List Piece) : Run (Option (List Atom × List Piece)) := do
  match pieces with
  | .char false '~' :: rest =>
      let isName : Piece → Bool
        | .char false c => c != '/' && !(manner.assigned && c == ':')
        | _ => false
      let name := rest.takeWhile isName
      let behind := rest.drop name.length
      let ends : Bool := match behind with
        | [] | .char false _ :: _ | .close :: _ => true
        | _ => false
      if ends then
        return (← home? (Word.unquoted name)).map fun text =>
          (text.map fun c => .glyph ⟨c, true⟩, behind)
      else return none
  | _ => return none

end Run

open Run

variable (capture : Option Node → Run (List Char))

/-- Expands pieces; `start` tells whether a home may stand at the start. -/
def expand : Nat → Manner → (start : Bool) → List Piece → Run (List Atom)
  | 0, _, _, _ | _, _, _, [] => return []
  | fuel + 1, manner, start, piece :: rest => do
      if start && !manner.quoted then
        if let some (atoms, behind) ← tilde? manner (piece :: rest) then
          return atoms ++ (← expand fuel manner false behind)
      match piece with
      | .char quoted c =>
          let atom : Atom := if !quoted && manner.nested && manner.split && !manner.quoted then
            .loose c else .glyph ⟨c, quoted⟩
          let start := manner.assigned && !quoted && c == ':'
          return atom :: (← expand fuel manner start rest)
      | .quoteMark =>
          match manner.quoted, rest with
          | false, .parameter ⟨['@'], .value, false⟩ :: .quoteMark :: behind =>
              let found ← parameter { manner with quoted := true } ['@']
              return (found.map (·.1)).getD [] ++ (← expand fuel manner false behind)
          | _, _ =>
              let manner := { manner with quoted := manner.enclosed || !manner.quoted }
              return .mark :: (← expand fuel manner false rest)
      | .close | .closeSum => expand fuel manner false rest
      | .command body =>
          let text := (← capture body).filter (· ≠ '\x00')
          let text := (text.reverse.dropWhile (· == '\n')).reverse
          return atomsOf manner text ++ (← expand fuel manner false rest)
      | .sum =>
          let (inside, behind) := untilClose 1 rest
          let text := textOf (← expand fuel .quotes false inside)
          return atomsOf manner (← evaluateSum text) ++ (← expand fuel manner false behind)
      | .parameter found =>
          let value? ← parameter (if found.form = .length then .whole else manner) found.name
          let full? := value?.filter fun value => !(found.orEmpty && value.2.isEmpty)
          let atoms (value? : Option (List Atom × List Char)) : List Atom :=
            (value?.map (·.1)).getD []
          if !found.nests then
            requireSet found.name value?
            return atoms value? ++ (← expand fuel manner false rest)
          else
            let (inside, behind) := untilClose 1 rest
            let nested : Manner := { manner with
              enclosed := manner.quoted, nested := true, assigned := false }
            let result ← match found.form, full? with
              | .value, _ => pure (atoms value?)
              | .length, _ => do
                  requireSet found.name value?
                  let size := ((value?.map (·.2)).getD []).length
                  pure (atomsOf manner (toString size).toList)
              | .instead, some value => pure value.1
              | .instead, none => expand fuel nested true inside
              | .ifSet, some _ => expand fuel nested true inside
              | .ifSet, none => pure []
              | .assigned, some value => pure value.1
              | .assigned, none => do
                  let text := textOf (← expand fuel { nested with split := false } true inside)
                  if isName found.name then assign found.name text
                  else fail (found.name ++ ": bad variable name".toList)
                  pure (atomsOf manner text)
              | .required, some value => pure value.1
              | .required, none => do
                  let text := textOf (← expand fuel { nested with split := false } true inside)
                  let usual := if found.orEmpty then "parameter not set or null"
                    else "parameter not set"
                  fail (found.name ++ ": ".toList ++ if inside.isEmpty then usual.toList else text)
              | .trimmed atEnd longest, _ => do
                  requireSet found.name value?
                  let pattern ← expand fuel .whole true inside
                  let text := (value?.map (·.2)).getD []
                  let marks := manner.quoted && manner.split
                  pure (atomsOf manner (Pattern.trim pattern marks atEnd longest text))
              | .malformed, _ => fail "Bad substitution".toList
            return result ++ (← expand fuel manner false behind)

def expandWord (manner : Manner) (word : Word) : Run (List Atom) :=
  expand capture (2 * word.length + 1) manner true word

/-- A word as one text. -/
def expandText (manner : Manner) (word : Word) : Run (List Char) := do
  return textOf (← expandWord capture manner word)

/-- The paths that a word stands for as a pattern: the path so far and its place among the files. -/
def matchPaths (files : Files) (path : List Char) (place : Option (List String)) :
    List (List Glyph) → List (List Char)
  | [] => if (place.bind files.file?).isSome then [path] else []
  | component :: rest =>
      let isLast := rest.isEmpty
      let onward (name : List Char) : List (List Char) :=
        let path := path ++ name ++ (if isLast then [] else ['/'])
        let place := place.bind fun place =>
          match files.follow false 1000 place [String.ofList name] with
          | .ok found => some found
          | .error _ => none
        matchPaths files path place rest
      if component.any fun glyph => "*?[".toList.contains glyph.char && !glyph.quoted then
        let pattern := Pattern.ofWord component
        let hidden := component.head?.any fun glyph => glyph.char == '.'
        let names := (place.map files.names).getD []
        let found := names.filter fun name =>
          (hidden || !name.startsWith ".") && pattern.accepts name.toList
        found.flatMap fun name => onward name.toList
      else onward (component.map (·.char))

/-- The texts of a word, which may be a pattern for paths. -/
def pathsOf (state : State) (word : List Glyph) : List (List Char) :=
  let text := word.map (·.char)
  let word := Glyph.escaped word
  let isPattern := word.any fun glyph => "*?[".toList.contains glyph.char && !glyph.quoted
  if !isPattern || state.isOn "noglob" then [text]
  else
    let files : Files := { state.files with working := state.working }
    let (path, place, components) := match Text.split (·.isSign '/') word with
      | [] :: rest => (['/'], [], rest)
      | components => ([], state.working, components)
    match matchPaths files path (some place) components with
    | [] => [text]
    | found => found

/-- The words that a word becomes. -/
def expandFields (word : Word) : Run (List (List Char)) := do
  let atoms ← expandWord capture .words word
  let state ← get
  let words := state.separators.words none .nothing atoms
  return words.flatMap (pathsOf state)

end NodeInventory.Command.Shell
