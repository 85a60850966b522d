import NodeInventory.Command.Shell.Echo
import NodeInventory.Number.Literal

/-!
# Writing in a format

A format is used again as long as it uses up arguments; arguments that are missing are empty.
-/

namespace NodeInventory.Command.Shell.Printf

open Number

/-- A conversion of a format. -/
structure Conversion where
  flags : List Char
  width : Nat
  precision : Option Nat
  kind : Char
deriving DecidableEq, Repr

namespace Conversion

variable (conversion : Conversion)

/-- Widens a text, which zeros may follow the sign of. -/
def pad (zeros : Bool) (sign text : List Char) : List Char :=
  let missing := conversion.width - (sign.length + text.length)
  if conversion.flags.contains '-' then sign ++ text ++ List.replicate missing ' '
  else if zeros && conversion.flags.contains '0' then sign ++ List.replicate missing '0' ++ text
  else List.replicate missing ' ' ++ sign ++ text

def shown (text : List Char) : List Char :=
  conversion.pad false [] (text.take (conversion.precision.getD text.length))

def sign (negative : Bool) : List Char :=
  if negative then ['-']
  else if conversion.flags.contains '+' then ['+']
  else if conversion.flags.contains ' ' then [' ']
  else []

def digits (n : Nat) : List Char :=
  let base := match conversion.kind with
    | 'o' => 8
    | 'x' | 'X' => 16
    | _ => 10
  let digits := if n = 0 && conversion.precision = some 0 then [] else Nat.toDigits base n
  let digits := if conversion.kind = 'X' then digits.map Char.toUpper else digits
  let digits := List.replicate (conversion.precision.getD 0 - digits.length) '0' ++ digits
  if conversion.kind = 'o' && conversion.flags.contains '#' && digits.head? ≠ some '0' then
    '0' :: digits
  else digits

def whole (n : Int) : List Char :=
  let marked := conversion.flags.contains '#' && n ≠ 0
  let sign := match conversion.kind with
    | 'd' | 'i' => conversion.sign (n < 0)
    | 'x' => if marked then ['0', 'x'] else []
    | 'X' => if marked then ['0', 'X'] else []
    | _ => []
  conversion.pad conversion.precision.isNone sign (conversion.digits n.natAbs)

/-- A number of units with a fixed number of places. -/
def places (units count : Nat) : List Char :=
  let digits := Nat.toDigits 10 (roundDiv (units * Nat.pow 10 count) Number.one)
  let digits := List.replicate (count + 1 - digits.length) '0' ++ digits
  let point := if count = 0 && !conversion.flags.contains '#' then [] else ['.']
  digits.take (digits.length - count) ++ point ++ digits.drop (digits.length - count)

/-- The significant digits of a number of units, one more than `count`, and the exponent of the
first. -/
def significant (units count : Nat) : List Char × Int :=
  if units = 0 then (List.replicate (count + 1) '0', 0)
  else
    let exponent := magnitude units - 1
    let shift := exponent - count
    let digits := Nat.toDigits 10 (roundDiv (units * Nat.pow 10 (-shift).toNat)
      (Number.one * Nat.pow 10 shift.toNat))
    if count + 1 < digits.length then (digits.take (count + 1), exponent + 1)
    else (digits, exponent)

def scientific (digits : List Char) (exponent : Int) : List Char :=
  let power := (toString exponent.natAbs).toList
  let point := if digits.length < 2 && !conversion.flags.contains '#' then [] else ['.']
  digits.take 1 ++ point ++ digits.drop 1 ++ 'e' :: (if exponent < 0 then '-' else '+')
    :: (List.replicate (2 - power.length) '0' ++ power)

/-- A text without zeros at the end of its fraction. -/
def withoutZeros (text : List Char) : List Char :=
  if !text.contains '.' then text
  else
    match text.reverse.dropWhile (· = '0') with
    | '.' :: rest => rest.reverse
    | rest => rest.reverse

/-- A number of units in the least room. -/
def general (units : Nat) : List Char :=
  let size := max 1 (conversion.precision.getD 6)
  let (digits, exponent) := significant units (size - 1)
  let short (text : List Char) : List Char :=
    if conversion.flags.contains '#' then text else withoutZeros text
  if -4 ≤ exponent && exponent < size then
    short (conversion.places units (size - 1 - exponent).toNat)
  else
    let digits := if conversion.flags.contains '#' then digits
      else digits.take 1 ++ ((digits.drop 1).reverse.dropWhile (· = '0')).reverse
    conversion.scientific digits exponent

/-- A number of units as a hexadecimal fraction and a power of two. -/
def hexadecimal (units : Nat) : List Char :=
  let normal := Nat.pow 2 52
  let place := Nat.max 52 (Nat.log2 units)
  let significand := units / Nat.pow 2 (place - 52)
  let count := conversion.precision.getD 13
  let kept := roundDiv (significand * Nat.pow 16 (count - 13)) (Nat.pow 16 (13 - count))
  let scale := Nat.pow 16 count
  let digits := Nat.toDigits 16 (kept % scale)
  let digits := if count = 0 then [] else List.replicate (count - digits.length) '0' ++ digits
  let digits := if conversion.precision.isSome then digits
    else (digits.reverse.dropWhile (· = '0')).reverse
  let point := if digits.isEmpty && !conversion.flags.contains '#' then [] else ['.']
  let power : Int := if units = 0 then 0 else if units < normal then -1022 else place - 1074
  Nat.toDigits 16 (kept / scale) ++ point ++ digits ++ 'p' :: (if power < 0 then '-' else '+')
    :: (toString power.natAbs).toList

def real (x : Binary64) : List Char :=
  let cased (text : List Char) : List Char :=
    if conversion.kind.isUpper then text.map Char.toUpper else text
  match x with
  | .nan => conversion.pad false (conversion.sign false) (cased "nan".toList)
  | .infinite negative => conversion.pad false (conversion.sign negative) (cased "inf".toList)
  | .finite negative units _ =>
      let count := conversion.precision.getD 6
      let mark := if conversion.kind.toLower = 'a' then "0x".toList else []
      let text := match conversion.kind.toLower with
        | 'a' => conversion.hexadecimal units
        | 'f' => conversion.places units count
        | 'e' =>
            let (digits, exponent) := significant units count
            conversion.scientific digits exponent
        | _ => conversion.general units
      conversion.pad true (conversion.sign negative ++ cased mark) (cased text)

end Conversion

/-- What is read at the start of a text. -/
structure Reading where
  value : Binary64
  /-- Whether the number is too great, or so small that some of it is lost. -/
  outOfRange : Bool
  rest : List Char

/-- The number nearest to a ratio of units. -/
def Reading.ofRatio (negative : Bool) (p q : Nat) (rest : List Char) : Reading :=
  let value := Binary64.ofRatio negative p q
  let outOfRange : Bool := match value with
    | .finite _ units _ => units < Nat.pow 2 52 && units * q ≠ p
    | _ => true
  ⟨value, outOfRange, rest⟩

/-- An exponent behind its mark, and what follows; without digits there is none. -/
def readExponent (mark : Char) (text : List Char) : Int × List Char :=
  match text with
  | c :: power =>
      let (negative, digits) := Number.sign power
      let spelled := digits.takeWhile Char.isDigit
      if c.toLower ≠ mark || spelled.isEmpty then (0, text)
      else
        let value : Int := valueOf spelled
        (if negative then -value else value, digits.drop spelled.length)
  | [] => (0, [])

/-- Digits with a point among them: the digits, how many of them stand behind it, and what follows;
`none` without any digit. -/
def fraction? (isDigit : Char → Bool) (text : List Char) : Option (List Char × Nat × List Char) :=
  let whole := text.takeWhile isDigit
  let (fraction, rest) := match text.drop whole.length with
    | '.' :: rest => (rest.takeWhile isDigit, rest.dropWhile isDigit)
    | rest => ([], rest)
  if whole.isEmpty && fraction.isEmpty then none
  else some (whole ++ fraction, fraction.length, rest)

/-- The number of a decimal.  No great power is computed for one that is far out of range. -/
def ofDecimal (negative : Bool) (digits : List Char) (exponent : Int) (rest : List Char) :
    Reading :=
  let n := valueOf digits
  let size := exponent + (digits.dropWhile (· = '0')).length
  if n = 0 then .ofRatio negative 0 1 rest
  else if size < -330 then ⟨.ofRatio negative 0 1, true, rest⟩
  else if 310 < size then ⟨.infinite negative, true, rest⟩
  else
    let scale (power : Int) : Nat := Nat.pow 10 power.toNat
    .ofRatio negative (n * Number.one * scale exponent) (scale (-exponent)) rest

/-- The number of a hexadecimal fraction times a power of two. -/
def ofHexadecimal (negative : Bool) (digits : List Char) (exponent : Int) (rest : List Char) :
    Reading :=
  let n := digits.foldl (fun n c => n * 16 + (Integer.digit? 16 c).getD 0) 0
  let size := exponent + 4 * (digits.dropWhile (· = '0')).length
  if n = 0 then .ofRatio negative 0 1 rest
  else if size < -1100 then ⟨.ofRatio negative 0 1, true, rest⟩
  else if 1100 < size then ⟨.infinite negative, true, rest⟩
  else
    .ofRatio negative (n * Number.one * Nat.pow 2 exponent.toNat) (Nat.pow 2 (-exponent).toNat) rest

/-- The length of a name of what is not a number, with what may stand in parentheses behind it. -/
def nameLength (text : List Char) : Nat :=
  match text.drop 3 with
  | '(' :: rest =>
      let inside := rest.takeWhile fun c => c.isAlphanum || c == '_'
      if rest[inside.length]? = some ')' then inside.length + 5 else 3
  | _ => 3

/-- Reads a number as far as it goes; without digits nothing is read. -/
def readReal (text : List Char) : Reading :=
  let (negative, spelled) := Number.sign (text.dropWhile Integer.isBlank)
  let lower := spelled.map Char.toLower
  let hexadecimal? := match spelled with
    | '0' :: x :: rest =>
        if x.toLower = 'x' then fraction? (fun c => (Integer.digit? 16 c).isSome) rest else none
    | _ => none
  match ["infinity", "inf"].find? fun name => name.toList.isPrefixOf lower with
  | some name => ⟨.infinite negative, false, spelled.drop name.length⟩
  | none =>
      if "nan".toList.isPrefixOf lower then ⟨.nan, false, spelled.drop (nameLength lower)⟩
      else
        match hexadecimal?, fraction? Char.isDigit spelled with
        | some (digits, places, rest), _ =>
            let (exponent, rest) := readExponent 'p' rest
            ofHexadecimal negative digits (exponent - 4 * places) rest
        | none, some (digits, places, rest) =>
            let (exponent, rest) := readExponent 'e' rest
            ofDecimal negative digits (exponent - places) rest
        | none, none => ⟨.ofRatio false 0 1, false, text⟩

/-- What has been written so far, and from which arguments. -/
structure Progress where
  arguments : List (List Char)
  /-- The last character first. -/
  written : List Char
  complaints : List (List Char)
  status : Nat

namespace Progress

variable (progress : Progress)

def write (text : List Char) : Progress :=
  { progress with written := text.reverse ++ progress.written }

def next : List Char × Progress :=
  (progress.arguments.headD [], { progress with arguments := progress.arguments.tail })

def complain (reason : List Char) (status : Nat) : Progress :=
  { progress with complaints := progress.complaints ++ [reason], status }

/-- Complains about a text that is no number up to its end. -/
def check (text rest : List Char) (clipped : Bool) : Progress :=
  let reason? := if rest.isEmpty then if clipped then some "Numerical result out of range" else none
    else if rest.length = text.length then some "expected numeric value"
    else some "not completely converted"
  match reason? with
  | some reason => progress.complain (text ++ (": " ++ reason).toList) 1
  | none => progress

/-- The character after a quote that an argument starts with, as a number. -/
def quoted? (text : List Char) : Option Nat :=
  match text with
  | quote :: rest => if quote = '"' || quote = '\'' then some (rest.headD '\x00').toNat else none
  | [] => none

def nextInteger (read : Option Nat → List Char → Integer.Reading) : Int × Progress :=
  let (text, progress) := progress.next
  match quoted? text with
  | some n => (n, progress)
  | none =>
      let found := read none text
      (found.value, progress.check text found.rest found.clipped)

def nextReal : Binary64 × Progress :=
  let (text, progress) := progress.next
  match quoted? text with
  | some n => (.ofNat n, progress)
  | none =>
      let found := readReal text
      (found.value, progress.check text found.rest found.outOfRange)

/-- A number of a format: digits, or a star for the next argument. -/
def nextSize (format : List Char) : Option Int × List Char × Progress :=
  match format with
  | '*' :: rest =>
      let (n, progress) := progress.nextInteger Integer.read
      (some n, rest, progress)
  | _ =>
      let digits := format.takeWhile Char.isDigit
      (if digits.isEmpty then none else some (valueOf digits), format.drop digits.length, progress)

/-- The conversion after a percent sign, and what follows it. -/
def nextConversion? (format : List Char) : Option (Conversion × List Char × Progress) :=
  let isFlag (c : Char) : Bool := "#-+ 0".toList.contains c
  let flags := format.takeWhile isFlag
  let (width, rest, progress) := progress.nextSize (format.dropWhile isFlag)
  let flags := if width.any (· < 0) then '-' :: flags else flags
  let (precision, rest, progress) : Option Nat × List Char × Progress := match rest with
    | '.' :: rest =>
        let (size, rest, progress) := progress.nextSize rest
        let size := size.getD 0
        (if size < 0 then none else some size.toNat, rest, progress)
    | rest => (none, rest, progress)
  match rest with
  | kind :: rest => some (⟨flags, (width.getD 0).natAbs, precision, kind⟩, rest, progress)
  | [] => none

end Progress

/-- One pass over the format; `false` tells that nothing more may be written. -/
def pass : Nat → List Char → Progress → Progress × Bool
  | 0, _, progress => (progress, false)
  | _ + 1, [], progress => (progress, true)
  | fuel + 1, '\\' :: rest, progress =>
      let (c, rest) := escape rest
      pass fuel rest (progress.write [c])
  | fuel + 1, '%' :: '%' :: rest, progress => pass fuel rest (progress.write ['%'])
  | fuel + 1, '%' :: format, progress =>
      match progress.nextConversion? format with
      | none => (progress.complain "missing format character".toList 2, false)
      | some (conversion, rest, progress) =>
          match conversion.kind with
          | 's' =>
              let (text, progress) := progress.next
              pass fuel rest (progress.write (conversion.shown text))
          | 'b' =>
              let (text, progress) := progress.next
              let (text, whole) := unescape false text.length text
              let progress := progress.write (conversion.shown text)
              if whole then pass fuel rest progress else (progress, false)
          | 'c' =>
              let (text, progress) := progress.next
              pass fuel rest (progress.write (conversion.pad false [] [text.headD '\x00']))
          | 'd' | 'i' =>
              let (n, progress) := progress.nextInteger Integer.read
              pass fuel rest (progress.write (conversion.whole n))
          | 'o' | 'u' | 'x' | 'X' =>
              let (n, progress) := progress.nextInteger Integer.readUnsigned
              pass fuel rest (progress.write (conversion.whole n))
          | 'a' | 'A' | 'e' | 'E' | 'f' | 'F' | 'g' | 'G' =>
              let (x, progress) := progress.nextReal
              pass fuel rest (progress.write (conversion.real x))
          | _ =>
              let directive := '%' :: format.take (format.length - rest.length)
              (progress.complain (directive ++ ": invalid directive".toList) 2, false)
  | fuel + 1, c :: rest, progress => pass fuel rest (progress.write [c])

/-- Passes over the format as long as they use up arguments. -/
def passes (format : List Char) : Nat → Progress → Progress × Bool
  | 0, progress => (progress, true)
  | fuel + 1, progress =>
      let (next, whole) := pass (format.length + 1) format progress
      if whole && !next.arguments.isEmpty && next.arguments.length < progress.arguments.length then
        passes format fuel next
      else (next, whole)

/-- Writes arguments in a format. -/
def formatted (format : List Char) (arguments : List (List Char)) : Effect :=
  let (after, _) := passes format (arguments.length + 1) ⟨arguments, [], [], 0⟩
  ⟨after.written.reverse, after.complaints, after.status⟩

end Printf

/-- Writes arguments in the format before them. -/
def printf (arguments : List (List Char)) : Effect :=
  let usage : Effect := .complains "usage: printf format [arg ...]".toList 2
  match arguments with
  | [] | [['-', '-']] => usage
  | ['-', '-'] :: format :: arguments => Printf.formatted format arguments
  | ('-' :: c :: _) :: _ => .complains ("Illegal option -".toList ++ [c]) 2
  | format :: arguments => Printf.formatted format arguments

end NodeInventory.Command.Shell
