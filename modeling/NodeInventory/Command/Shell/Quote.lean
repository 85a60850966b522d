import NodeInventory.Command.Shell.Integer

/-!
# Texts in quotes

Shells and programs show texts in quotes, each in its own way: so that a shell reads them as they
were, or with escapes for what cannot be seen.
-/

namespace NodeInventory.Command.Shell.Quote

/-- Parts of a text in single quotes, and single quotes between them in double quotes. -/
def parts : Nat → List Char → List Char
  | 0, _ => []
  | count + 1, text =>
      let plain := text.takeWhile (· ≠ '\'')
      let marks := (text.drop plain.length).takeWhile (· = '\'')
      let rest := text.drop (plain.length + marks.length)
      '\'' :: plain ++ '\'' :: (if marks.isEmpty then [] else '"' :: marks ++ ['"'])
        ++ if rest.isEmpty then [] else parts count rest

/-- A text as a shell shows it for a shell. -/
def value (text : List Char) : List Char := parts (text.length + 1) text

/-- The escape for a character that cannot be seen. -/
def escaped? (c : Char) : Option (List Char) :=
  match c with
  | '\x07' => some ['\\', 'a']
  | '\x08' => some ['\\', 'b']
  | '\t' => some ['\\', 't']
  | '\n' => some ['\\', 'n']
  | '\x0b' => some ['\\', 'v']
  | '\x0c' => some ['\\', 'f']
  | '\r' => some ['\\', 'r']
  | c =>
      if ' ' ≤ c && c ≤ '~' then none
      else
        let digit (n : Nat) : Char := Char.ofNat ('0'.toNat + n % 8)
        some ['\\', digit (c.toNat / 64), digit (c.toNat / 8), digit c.toNat]

/-- A text with escapes between single quotes. -/
def text (text : List Char) : List Char :=
  let shown (c : Char) : List Char :=
    if c = '\'' || c = '\\' then ['\\', c] else (escaped? c).getD [c]
  '\'' :: text.flatMap shown ++ ['\'']

/-- A text within single quotes; escapes are put in quotes of their own kind. -/
def inside : Bool → List Char → List Char
  | _, [] => []
  | _, '\'' :: rest => "'\\''".toList ++ inside false rest
  | escaping, c :: rest =>
      match escaped? c with
      | some escape => (if escaping then [] else "'$'".toList) ++ escape ++ inside true rest
      | none => (if escaping then "''".toList else []) ++ c :: inside false rest

/-- Whether a character means itself to a shell wherever it stands. -/
def isSafe (c : Char) : Bool := c.isAlphanum || "%+,-./@]_".toList.contains c

/-- The name of a file as a program shows it for a shell, in quotes only if it needs them. -/
def name (text : List Char) : List Char :=
  let start := text.take 1
  let isMark := start = ['#'] || start = ['~']
  let isSingle := text.length = 1
  let bare (c : Char) : Bool := isSafe c || "{}#~".toList.contains c
  let mild (c : Char) : Bool := isSafe c || c = ' ' || c = '\''
  if !text.isEmpty && text.all bare && !isMark && !(isSingle && !text.all isSafe) then text
  else if text.contains '\'' && (text.drop (if isMark then 1 else 0)).all mild then
    '"' :: text ++ ['"']
  else '\'' :: inside false text ++ ['\'']

end NodeInventory.Command.Shell.Quote
