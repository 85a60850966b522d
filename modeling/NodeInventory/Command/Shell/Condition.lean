import NodeInventory.Command.Shell.Echo

/-!
# Testing conditions

A condition is a list of words.  Up to four words are told apart by their number first, so that a
word which looks like an operator can stand as an operand.
-/

namespace NodeInventory.Command.Shell.Condition

/-- What an operator expects. -/
inductive Arity
  | one
  | two
  /-- An operator that joins conditions, or a parenthesis. -/
  | joint
deriving DecidableEq, Repr

def unary : List String :=
  ["-r", "-w", "-x", "-e", "-f", "-d", "-c", "-b", "-p", "-u", "-g", "-k", "-s", "-t", "-z", "-n",
    "-h", "-O", "-G", "-L", "-S"]

def binary : List String :=
  ["=", "!=", "<", ">", "-eq", "-ne", "-ge", "-gt", "-le", "-lt", "-nt", "-ot", "-ef"]

def arity? (word : List Char) : Option Arity :=
  let text := String.ofList word
  if unary.contains text then some .one
  else if binary.contains text then some .two
  else if ["!", "-a", "-o", "(", ")"].contains text then some .joint
  else none

/-- The operator that the first word is, if it does not have to be an operand. -/
def operator? : List (List Char) → Option (List Char)
  | [] => none
  | word :: rest =>
      let isOperand : Bool := match rest with
        | [] => true
        | [_] => false
        | second :: _ => arity? second == some .two
      match arity? word with
      | none => none
      | some .one => if isOperand then none else some word
      | some _ => if word = ['('] && rest.isEmpty then none else some word

def isOperator (words : List (List Char)) (operator : String) : Bool :=
  operator? words == some operator.toList

def failure {α : Type} (word : List Char) (reason : String) : Except (List Char) α :=
  throw (if word.isEmpty then reason.toList else word ++ (": " ++ reason).toList)

def number (text : List Char) : Except (List Char) Int :=
  match Integer.ofText? (some 10) text with
  | some n => return n
  | none => throw ("Illegal number: ".toList ++ text)

/-- What can be asked about files. -/
structure Query where
  /-- Whether an operator holds of a path. -/
  holds : (operator : String) → (path : List Char) → Bool
  /-- Whether two paths lead to one file. -/
  same : List Char → List Char → Bool

variable (query : Query)

/-- Compares two operands as numbers. -/
def compareNumbers (operator : String) (left right : Int) : Bool :=
  match operator with
  | "-eq" => left == right
  | "-ne" => left != right
  | "-ge" => right ≤ left
  | "-gt" => right < left
  | "-le" => left ≤ right
  | _ => left < right

/-- Compares two operands; nothing is known about the age of files. -/
def compare (operator : String) (left right : List Char) : Except (List Char) Bool := do
  match operator with
  | "=" => return left == right
  | "!=" => return left != right
  | "<" => return left < right
  | ">" => return right < left
  | "-ef" => return query.same left right
  | "-nt" | "-ot" => return false
  | _ => return compareNumbers operator (← number left) (← number right)

mutual

/-- Conditions joined by `-o`, and what follows the last word of them, that word included. -/
def disjunction : Nat → List (List Char) → Except (List Char) (Bool × List (List Char))
  | 0, words => return (false, words)
  | fuel + 1, words => do
      let (holds, rest) ← conjunction fuel words
      if isOperator rest.tail "-o" then
        let (also, rest) ← disjunction fuel (rest.drop 2)
        return (holds || also, rest)
      else return (holds, rest)

def conjunction : Nat → List (List Char) → Except (List Char) (Bool × List (List Char))
  | 0, words => return (false, words)
  | fuel + 1, words => do
      let (holds, rest) ← negation fuel words
      if isOperator rest.tail "-a" then
        let (also, rest) ← conjunction fuel (rest.drop 2)
        return (holds && also, rest)
      else return (holds, rest)

def negation : Nat → List (List Char) → Except (List Char) (Bool × List (List Char))
  | 0, words => return (false, words)
  | fuel + 1, words => do
      if isOperator words "!" then
        let next := if words.tail.isEmpty then words else words.tail
        let (holds, rest) ← if words.tail.isEmpty then pure (false, next) else negation fuel next
        return (!holds, rest)
      else operand fuel words

def operand : Nat → List (List Char) → Except (List Char) (Bool × List (List Char))
  | 0, words => return (false, words)
  | fuel + 1, words => do
      match words with
      | [] => return (false, [])
      | word :: rest =>
          if isOperator words "(" then
            if isOperator rest ")" then return (false, rest)
            let (holds, rest) ← disjunction fuel rest
            if isOperator rest.tail ")" then return (holds, rest.tail)
            else failure [] "closing paren expected"
          else if (operator? words).isSome && arity? word == some .one then
            match rest with
            | [] => failure word "argument expected"
            | subject :: _ =>
                match String.ofList word with
                | "-z" => return (subject.isEmpty, rest)
                | "-n" => return (!subject.isEmpty, rest)
                | "-t" =>
                    let _ ← number subject
                    return (false, rest)
                | operator => return (query.holds operator subject, rest)
          else
            match rest with
            | operator :: more =>
                if (operator? rest).isSome && arity? operator == some .two then
                  match more with
                  | [] => failure operator "argument expected"
                  | right :: _ => return (← compare query (String.ofList operator) word right, more)
                else return (!word.isEmpty, words)
            | [] => return (!word.isEmpty, words)

end

/-- Whether a list of words as a whole holds. -/
def evaluate (words : List (List Char)) : Except (List Char) Bool := do
  let (holds, rest) ← disjunction query (4 * words.length + 4) words
  match rest with
  | word :: _ :: _ => failure word "unexpected operator"
  | _ => return holds

/-- Whether a condition holds, or does not if it is negated: once, however many signs of negation
stand in front of three or four words. -/
def holds (negated : Bool) : List (List Char) → Except (List Char) Bool
  | [] => return negated
  | first :: rest => do
      let words := first :: rest
      let isJoined : Bool := match rest with
        | [operator, _] => arity? operator == some .two
        | _ => false
      if isJoined then
        return (← compare query (String.ofList (rest.headD [])) first (rest.getLastD [])) != negated
      else if rest.length == 2 || rest.length == 3 then
        if first = ['('] && rest.getLast? = some [')'] then
          return (← evaluate query rest.dropLast) != negated
        else if first = ['!'] then holds true rest
        else return (← evaluate query words) != negated
      else return (← evaluate query words) != negated

/-- The command `test`, or `[` with its closing bracket. -/
def test (bracket : Bool) (arguments : List (List Char)) : Effect :=
  if bracket && arguments.getLast? ≠ some [']'] then .complains "missing ]".toList 2
  else
    let words := if bracket then arguments.dropLast else arguments
    match holds query false words with
    | .ok found => .silent (if found then 0 else 1)
    | .error reason => .complains reason 2

end NodeInventory.Command.Shell.Condition
