import NodeInventory.Command.Shell.Integer

/-!
# Escapes, and writing arguments
-/

namespace NodeInventory.Command.Shell

/-- What a utility writes, what it complains about, and its status. -/
structure Effect where
  stdout : List Char
  complaints : List (List Char)
  status : Nat
deriving DecidableEq, Repr

namespace Effect

def silent (status : Nat) : Effect := ⟨[], [], status⟩

def writes (text : List Char) : Effect := ⟨text, [], 0⟩

def complains (reason : List Char) (status : Nat) : Effect := ⟨[], [reason], status⟩

end Effect

/-- The octal number in at most three digits, and what follows. -/
def octal (text : List Char) : Char × List Char :=
  let digits := (text.take 3).takeWhile fun c => '0' ≤ c && c ≤ '7'
  let value := digits.foldl (fun sum c => sum * 8 + (c.toNat - '0'.toNat)) 0
  (Char.ofNat (value % 256), text.drop digits.length)

/-- The character that a backslash and this text stand for, and what follows; a backslash that
starts no escape stands for itself. -/
def escape : List Char → Char × List Char
  | '\\' :: rest => ('\\', rest)
  | 'a' :: rest => ('\x07', rest)
  | 'b' :: rest => ('\x08', rest)
  | 'e' :: rest => ('\x1b', rest)
  | 'f' :: rest => ('\x0c', rest)
  | 'n' :: rest => ('\n', rest)
  | 'r' :: rest => ('\r', rest)
  | 't' :: rest => ('\t', rest)
  | 'v' :: rest => ('\x0b', rest)
  | c :: rest => if '0' ≤ c && c ≤ '7' then octal (c :: rest) else ('\\', c :: rest)
  | [] => ('\\', [])

/-- The character of one or two hexadecimal digits, and what follows. -/
def hexadecimal? (text : List Char) : Option (Char × List Char) :=
  let digits := (text.take 2).takeWhile fun c => (Integer.digit? 16 c).isSome
  if digits.isEmpty then none
  else
    let value := digits.foldl (fun sum c => sum * 16 + (Integer.digit? 16 c).getD 0) 0
    some (Char.ofNat value, text.drop digits.length)

/-- An argument with its escapes replaced, hexadecimal ones only if they are `wide`; `\c` cuts it
off, and `false` tells so. -/
def unescape (wide : Bool) : Nat → List Char → List Char × Bool
  | 0, text => (text, true)
  | _ + 1, [] => ([], true)
  | _ + 1, '\\' :: 'c' :: _ => ([], false)
  | fuel + 1, '\\' :: rest =>
      let digits? := if wide && rest.head? = some 'x' then hexadecimal? rest.tail else none
      let (c, rest) := match digits?, rest with
        | some found, _ => found
        | none, '0' :: rest => octal rest
        | none, rest => escape rest
      let (later, whole) := unescape wide fuel rest
      (c :: later, whole)
  | fuel + 1, c :: rest =>
      let (later, whole) := unescape wide fuel rest
      (c :: later, whole)

def echo (arguments : List (List Char)) : Effect :=
  let (newline, words) := match arguments with
    | ['-', 'n'] :: words => (false, words)
    | words => (true, words)
  let joined := List.intercalate [' '] words
  let (text, whole) := unescape false joined.length joined
  .writes (if newline && whole then text ++ ['\n'] else text)

end NodeInventory.Command.Shell
