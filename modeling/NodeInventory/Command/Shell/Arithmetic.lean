import NodeInventory.Command.Shell.Integer

/-!
# Sums

An expression is evaluated from left to right, with no more of it than its value needs; what is not
needed is read all the same.
-/

namespace NodeInventory.Command.Shell.Arithmetic

inductive Error
  | noOperand
  | noEnd
  | noParenthesis
  | noColon
  | divisionByZero
  /-- A quotient that 64 bits cannot hold, which ends the process. -/
  | overflow
  /-- The value of a variable that is no number. -/
  | notNumber (value : List Char)
deriving DecidableEq, Repr

/-- What is wrong with an expression. -/
def Error.message (expression : List Char) : Error → List Char
  | .notNumber value => "Illegal number: ".toList ++ value
  | error =>
      let reason := match error with
        | .noOperand => "expecting primary"
        | .noEnd => "expecting EOF"
        | .noParenthesis => "expecting ')'"
        | .noColon => "expecting ':'"
        | _ => "division by zero"
      ("arithmetic expression: " ++ reason ++ ": \"").toList ++ expression ++ ['"']

inductive Token
  | number (n : Int)
  | name (name : List Char)
  | sign (text : String)
  | unknown
deriving DecidableEq, Repr

/-- The signs; of two with one start the longer comes first. -/
def signs : List String :=
  ["<<=", ">>=", "<<", ">>", "<=", ">=", "==", "!=", "&&", "||", "+=", "-=", "*=", "/=", "%=", "&=",
    "|=", "^=", "<", ">", "=", "&", "|", "+", "-", "*", "/", "%", "^", "!", "~", "(", ")", "?", ":"]

/-- The signs with their characters. -/
def spelledSigns : List (List Char × String) := signs.map fun sign => (sign.toList, sign)

def isNameChar (c : Char) : Bool := c.isAlphanum || c == '_'

def tokens : Nat → List Char → List Token
  | 0, _ | _, [] => []
  | fuel + 1, c :: rest =>
      if Integer.isBlank c then tokens fuel rest
      else if c.isDigit then
        let found := Integer.read none (c :: rest)
        .number found.value :: tokens fuel found.rest
      else if isNameChar c then
        .name (c :: rest.takeWhile isNameChar) :: tokens fuel (rest.dropWhile isNameChar)
      else
        match spelledSigns.find? fun entry => entry.1.isPrefixOf (c :: rest) with
        | some (chars, sign) => .sign sign :: tokens fuel ((c :: rest).drop chars.length)
        | none => .unknown :: tokens fuel rest

abbrev Operator := Int → Int → Except Error Int

def truth (b : Bool) : Int := if b then 1 else 0

def divide (apply : Int → Int → Int) : Operator := fun a b =>
  if b = 0 then throw .divisionByZero
  else if a = Integer.least && b = -1 then throw .overflow
  else return apply a b

def bitwise (apply : Nat → Nat → Nat) : Operator := fun a b =>
  return Integer.wrap (apply (Integer.unsigned a) (Integer.unsigned b))

def compare (holds : Int → Int → Bool) : Operator := fun a b => return truth (holds a b)

def shiftLeft : Operator := fun a b => return Integer.wrap (a * Nat.pow 2 (b % 64).toNat)

def shiftRight : Operator := fun a b => return a.fdiv (Nat.pow 2 (b % 64).toNat)

/-- The operators by how tightly they bind. -/
def levels : List (List (String × Operator)) :=
  [[("|", bitwise Nat.lor)], [("^", bitwise Nat.xor)], [("&", bitwise Nat.land)],
    [("==", compare (· == ·)), ("!=", compare (· != ·))],
    [("<", compare fun a b => a < b), (">", compare fun a b => b < a),
      ("<=", compare fun a b => a ≤ b), (">=", compare fun a b => b ≤ a)],
    [("<<", shiftLeft), (">>", shiftRight)],
    [("+", fun a b => return Integer.wrap (a + b)), ("-", fun a b => return Integer.wrap (a - b))],
    [("*", fun a b => return Integer.wrap (a * b)), ("/", divide Int.tdiv),
      ("%", divide Int.tmod)]]

/-- The signs of assignments, and the operators that they apply first. -/
def assigning : List (String × Operator) :=
  let compares (sign : String) : Bool := ["==", "!=", "<", ">", "<=", ">="].contains sign
  let applied := levels.flatten.filter fun entry => !compares entry.1
  ("=", fun _ b => return b) :: applied.map fun entry => (entry.1 ++ "=", entry.2)

/-- What is left of an expression, and what it has assigned so far. -/
structure Progress where
  tokens : List Token
  assigned : List (List Char × Int)

abbrev Evaluate := StateT Progress (Except Error)

namespace Evaluate

/-- Reads over a sign if it comes next. -/
def accept (sign : String) : Evaluate Bool := do
  let progress ← get
  match progress.tokens with
  | .sign found :: rest =>
      if found = sign then
        set { progress with tokens := rest }
        return true
      else return false
  | _ => return false

/-- Reads over an operator if one of these comes next. -/
def operator? (level : List (String × Operator)) : Evaluate (Option Operator) := do
  let progress ← get
  match progress.tokens with
  | .sign found :: rest =>
      match level.lookup found with
      | some apply =>
          set { progress with tokens := rest }
          return some apply
      | none => return none
  | _ => return none

/-- The number that a variable has. -/
def number (value : List Char → Option (List Char)) (name : List Char) : Evaluate Int := do
  match (← get).assigned.lookup name with
  | some n => return n
  | none =>
      let text := (value name).getD []
      match Integer.ofText? none text with
      | some n => return n
      | none => throw (.notNumber text)

end Evaluate

open Evaluate

variable (value : List Char → Option (List Char))

mutual

def assignment : Nat → (live : Bool) → Evaluate Int
  | 0, _ => throw .noOperand
  | fuel + 1, live => do
      let progress ← get
      match progress.tokens with
      | .name name :: .sign sign :: rest =>
          match assigning.lookup sign with
          | some apply =>
              set { progress with tokens := rest }
              let right ← assignment fuel live
              if live then
                let left ← if sign = "=" then pure 0 else number value name
                let result ← apply left right
                modify fun progress =>
                  { progress with assigned := (name, result) :: progress.assigned }
                return result
              else return right
          | none => conditional fuel live
      | _ => conditional fuel live

def conditional : Nat → Bool → Evaluate Int
  | 0, _ => throw .noOperand
  | fuel + 1, live => do
      let test ← disjunction fuel live
      if ← accept "?" then
        let yes ← assignment fuel (live && test != 0)
        if !(← accept ":") then throw .noColon
        let no ← conditional fuel (live && test == 0)
        return if test = 0 then no else yes
      else return test

def disjunction : Nat → Bool → Evaluate Int
  | 0, _ => throw .noOperand
  | fuel + 1, live => do
      let left ← conjunction fuel live
      if ← accept "||" then
        let right ← disjunction fuel (live && left == 0)
        return truth (left != 0 || right != 0)
      else return left

def conjunction : Nat → Bool → Evaluate Int
  | 0, _ => throw .noOperand
  | fuel + 1, live => do
      let left ← binary fuel levels live
      if ← accept "&&" then
        let right ← conjunction fuel (live && left != 0)
        return truth (left != 0 && right != 0)
      else return left

/-- An operand with what the operators of these levels add to it. -/
def binary : Nat → List (List (String × Operator)) → Bool → Evaluate Int
  | 0, _, _ => throw .noOperand
  | fuel + 1, [], live => operand fuel live
  | fuel + 1, level :: tighter, live => do
      let left ← binary fuel tighter live
      chain fuel level tighter live left

def chain : Nat → List (String × Operator) → List (List (String × Operator)) → Bool → Int →
    Evaluate Int
  | 0, _, _, _, _ => throw .noOperand
  | fuel + 1, level, tighter, live, left => do
      match ← operator? level with
      | none => return left
      | some apply =>
          let right ← binary fuel tighter live
          let result ← if live then apply left right else pure right
          chain fuel level tighter live result

def operand : Nat → Bool → Evaluate Int
  | 0, _ => throw .noOperand
  | fuel + 1, live => do
      let progress ← get
      let after (rest : List Token) : Evaluate Unit := set { progress with tokens := rest }
      match progress.tokens with
      | .number n :: rest =>
          after rest
          return n
      | .name name :: rest =>
          after rest
          if live then number value name else return 0
      | .sign "(" :: rest =>
          after rest
          let result ← assignment fuel live
          if ← accept ")" then return result else throw .noParenthesis
      | .sign "+" :: rest =>
          after rest
          operand fuel live
      | .sign "-" :: rest =>
          after rest
          return Integer.wrap (-(← operand fuel live))
      | .sign "!" :: rest =>
          after rest
          return truth ((← operand fuel live) == 0)
      | .sign "~" :: rest =>
          after rest
          return -(← operand fuel live) - 1
      | _ => throw .noOperand

end

/-- The value of an expression, and what it assigns, the last first. -/
def eval (text : List Char) : Except Error (Int × List (List Char × Int)) := do
  let all := tokens text.length text
  let (result, after) ← (assignment value (16 * all.length + 16) true).run ⟨all, []⟩
  if after.tokens.isEmpty then return (result, after.assigned) else throw .noEnd

end NodeInventory.Command.Shell.Arithmetic
