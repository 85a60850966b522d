/-!
# Whole numbers in scripts

Numbers have 64 bits.  A text is read as far as it spells a number; a number out of range is cut
off at the nearest limit.
-/

namespace NodeInventory.Command.Shell.Integer

/-- The number of values that 64 bits have. -/
def modulus : Nat := 0x10000000000000000

def least : Int := -0x8000000000000000

def greatest : Int := 0x7FFFFFFFFFFFFFFF

/-- The number with the same last 64 bits that is in range. -/
def wrap (n : Int) : Int := Int.bmod n modulus

/-- A number without its sign, and the number of those that are below zero. -/
def unsigned (n : Int) : Nat := (n % (modulus : Int)).toNat

def isBlank (c : Char) : Bool := c == ' ' || ('\t' ≤ c && c ≤ '\x0d')

def digit? (base : Nat) (c : Char) : Option Nat :=
  let value? : Option Nat :=
    if c.isDigit then some (c.toNat - '0'.toNat)
    else if c.isLower then some (c.toNat - 'a'.toNat + 10)
    else if c.isUpper then some (c.toNat - 'A'.toNat + 10)
    else none
  value?.filter (· < base)

/-- What is read at the start of a text. -/
structure Reading where
  value : Int
  /-- Whether the number is out of range. -/
  clipped : Bool
  rest : List Char
deriving DecidableEq, Repr

/-- Reads digits; `none` if there are none. -/
def digits? (base : Nat) (text : List Char) : Option (Nat × List Char) :=
  let spelled := text.takeWhile fun c => (digit? base c).isSome
  if spelled.isEmpty then none
  else
    let value := spelled.foldl (fun n c => n * base + (digit? base c).getD 0) 0
    some (value, text.drop spelled.length)

/-- Reads a magnitude, in a base that its first characters tell unless the base is given. -/
def magnitude? (base : Option Nat) (text : List Char) : Option (Nat × List Char) :=
  match base, text with
  | some base, _ => digits? base text
  | none, '0' :: mark :: rest =>
      let base? := match mark with
        | 'x' | 'X' => some 16
        | 'b' | 'B' => some 2
        | _ => none
      (base?.bind fun base => digits? base rest) <|> digits? 8 text
  | none, '0' :: _ => digits? 8 text
  | none, _ => digits? 10 text

/-- Reads blanks, a sign and digits; without digits nothing is read. -/
def signed? (base : Option Nat) (text : List Char) : Option (Bool × Nat × List Char) :=
  let spelled := text.dropWhile isBlank
  let (negative, spelled) := match spelled with
    | '-' :: rest => (true, rest)
    | '+' :: rest => (false, rest)
    | _ => (false, spelled)
  (magnitude? base spelled).map fun (n, rest) => (negative, n, rest)

/-- Reads a number. -/
def read (base : Option Nat) (text : List Char) : Reading :=
  match signed? base text with
  | none => ⟨0, false, text⟩
  | some (negative, n, rest) =>
      let value : Int := if negative then -n else n
      if value < least then ⟨least, true, rest⟩
      else if greatest < value then ⟨greatest, true, rest⟩
      else ⟨value, false, rest⟩

/-- Reads a number without sign; one below zero is taken as its last 64 bits. -/
def readUnsigned (base : Option Nat) (text : List Char) : Reading :=
  match signed? base text with
  | none => ⟨0, false, text⟩
  | some (negative, n, rest) =>
      if modulus ≤ n then ⟨modulus - 1, true, rest⟩
      else ⟨unsigned (if negative then -n else n), false, rest⟩

/-- The number that a whole text spells, blanks around it apart.  A text without digits spells zero
if a variable is read, in any base. -/
def ofText? (base : Option Nat) (text : List Char) : Option Int :=
  let found := read base text
  if found.clipped || (base.isSome && found.rest.length == text.length) then none
  else if found.rest.all isBlank then some found.value
  else none

/-- A count that a whole text spells in decimal. -/
def count? (text : List Char) : Option Nat :=
  match ofText? (some 10) text with
  | some n => if 0 ≤ n && n ≤ 0x7FFFFFFF then some n.toNat else none
  | none => none

end NodeInventory.Command.Shell.Integer
