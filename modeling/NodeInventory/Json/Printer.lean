import NodeInventory.Json.Value

/-!
# Writing JSON

The compact form has no blanks.  The indented form gives every item a line of its own, two spaces
deeper than its brackets, and puts a space behind each colon; brackets without items stay together.
-/

namespace NodeInventory.Json

def hexChar (n : Nat) : Char := if n < 10 then Char.ofNat (48 + n) else Char.ofNat (87 + n)

/-- A character as it stands in a string: quotes, backslashes and control characters are escaped. -/
def escapeChar (c : Char) : List Char :=
  if c = '"' then ['\\', '"']
  else if c = '\\' then ['\\', '\\']
  else if c = '\x08' then ['\\', 'b']
  else if c = '\x0C' then ['\\', 'f']
  else if c = '\n' then ['\\', 'n']
  else if c = '\r' then ['\\', 'r']
  else if c = '\t' then ['\\', 't']
  else if c.toNat < 0x20 then ['\\', 'u', '0', '0', hexChar (c.toNat / 16), hexChar (c.toNat % 16)]
  else [c]

def quote (s : List Char) : List Char := '"' :: (s.flatMap escapeChar ++ ['"'])

def charsOf (digits : List UInt8) : List Char := digits.map fun b => Char.ofNat b.toNat

def Numeral.chars (n : Numeral) : List Char :=
  (if n.negative then ['-'] else []) ++ charsOf n.whole
    ++ (if n.fraction = [] then [] else '.' :: charsOf n.fraction)
    ++ (match n.exponent with
        | none => []
        | some (negative, digits) => 'e' :: ((if negative then ['-'] else []) ++ charsOf digits))

/-- The pieces of a bracketed value with `between` between them. -/
def joined (between : List Char) (pieces : List (List Char)) : List Char :=
  between.intercalate pieces

def scalarChars : Scalar → List Char
  | .null => "null".toList
  | .bool true => "true".toList
  | .bool false => "false".toList
  | .number n => n.chars
  | .string s => quote s.toList

mutual

def compact : Json → List Char
  | .null => scalarChars .null
  | .bool b => scalarChars (.bool b)
  | .number n => scalarChars (.number n)
  | .string s => scalarChars (.string s)
  | .array items => '[' :: (joined [','] (compactItems items) ++ [']'])
  | .object members => '{' :: (joined [','] (compactMembers members) ++ ['}'])

def compactItems : List Json → List (List Char)
  | [] => []
  | item :: items => compact item :: compactItems items

def compactMembers : List (String × Json) → List (List Char)
  | [] => []
  | (name, value) :: members =>
      (quote name.toList ++ ':' :: compact value) :: compactMembers members

end

/-- A new line at a depth. -/
def newline (depth : Nat) : List Char := '\n' :: List.replicate (2 * depth) ' '

/-- Items in brackets at a depth, each on its own line. -/
def block (opening closing : Char) (depth : Nat) (pieces : List (List Char)) : List Char :=
  if pieces = [] then [opening, closing]
  else opening :: (newline (depth + 1) ++ joined (',' :: newline (depth + 1)) pieces
    ++ newline depth ++ [closing])

mutual

def indented (depth : Nat) : Json → List Char
  | .null => scalarChars .null
  | .bool b => scalarChars (.bool b)
  | .number n => scalarChars (.number n)
  | .string s => scalarChars (.string s)
  | .array items => block '[' ']' depth (indentedItems (depth + 1) items)
  | .object members => block '{' '}' depth (indentedMembers (depth + 1) members)

def indentedItems (depth : Nat) : List Json → List (List Char)
  | [] => []
  | item :: items => indented depth item :: indentedItems depth items

def indentedMembers (depth : Nat) : List (String × Json) → List (List Char)
  | [] => []
  | (name, value) :: members =>
      (quote name.toList ++ ':' :: ' ' :: indented depth value) :: indentedMembers depth members

end

end NodeInventory.Json
