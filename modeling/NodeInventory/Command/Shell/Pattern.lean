/-!
# Patterns

A word is a list of glyphs, characters of which each knows whether it was quoted.  Taken as a
pattern, its unquoted stars, question marks and brackets stand for other texts.  A backslash that
was not quoted itself quotes the character behind it.
-/

namespace NodeInventory.Command.Shell

/-- A character of a word. -/
structure Glyph where
  char : Char
  quoted : Bool
deriving DecidableEq, Repr

namespace Glyph

def plain (c : Char) : Glyph := ⟨c, false⟩

/-- Whether a glyph is a sign of patterns. -/
def isSign (glyph : Glyph) (c : Char) : Bool := glyph.char == c && !glyph.quoted

/-- A word with what backslashes quote as quoted glyphs. -/
def escaped : List Glyph → List Glyph
  | [] => []
  | [glyph] => [glyph]
  | glyph :: next :: rest =>
      if glyph.isSign '\\' then ⟨next.char, true⟩ :: escaped rest
      else glyph :: escaped (next :: rest)

end Glyph

/-- What a character in brackets may be. -/
inductive Range
  | within (low high : Char)
  | named (holds : Char → Bool)

def Range.holds : Range → Char → Bool
  | within low high, c => low ≤ c && c ≤ high
  | named holds, c => holds c

/-- A part of a pattern. -/
inductive Wildcard
  | many
  | any
  | one (c : Char)
  | among (negated : Bool) (ranges : List Range)

abbrev Pattern := List Wildcard

namespace Pattern

def isGraphic (c : Char) : Bool := ' ' < c && c < '\x7f'

/-- Classes of characters that brackets may name. -/
def classes : List (String × (Char → Bool)) :=
  [("alnum", Char.isAlphanum), ("alpha", Char.isAlpha), ("blank", fun c => c == ' ' || c == '\t'),
    ("cntrl", fun c => c < ' ' || c == '\x7f'), ("digit", Char.isDigit), ("graph", isGraphic),
    ("lower", Char.isLower), ("print", fun c => isGraphic c || c == ' '),
    ("punct", fun c => isGraphic c && !c.isAlphanum),
    ("space", fun c => c == ' ' || ('\t' ≤ c && c ≤ '\x0d')), ("upper", Char.isUpper),
    ("xdigit", fun c => c.isDigit || ('a' ≤ c && c ≤ 'f') || ('A' ≤ c && c ≤ 'F'))]

/-- The class named after an opening bracket, and what follows it. -/
def class? (rest : List Glyph) : Option ((Char → Bool) × List Glyph) :=
  match rest with
  | colon :: rest =>
      if colon.isSign ':' then
        let name := rest.takeWhile fun glyph => glyph.char.isAlpha
        match classes.lookup (String.ofList (name.map (·.char))), rest.drop name.length with
        | some holds, second :: bracket :: rest =>
            if second.isSign ':' && bracket.isSign ']' then some (holds, rest) else none
        | _, _ => none
      else none
  | [] => none

/-- The ranges up to a closing bracket, which may be the first of them, and what follows. -/
def ranges? : Nat → Bool → List Glyph → Option (List Range × List Glyph)
  | 0, _, _ | _, _, [] => none
  | fuel + 1, first, glyph :: rest =>
      if glyph.isSign ']' && !first then some ([], rest)
      else
        let add (range : Range) (rest : List Glyph) : Option (List Range × List Glyph) :=
          (ranges? fuel false rest).map fun (ranges, rest) => (range :: ranges, rest)
        match if glyph.isSign '[' then class? rest else none with
        | some (holds, rest) => add (.named holds) rest
        | none =>
            match rest with
            | minus :: high :: after =>
                if minus.isSign '-' && !high.isSign ']' then
                  add (.within glyph.char high.char) after
                else add (.within glyph.char glyph.char) rest
            | _ => add (.within glyph.char glyph.char) rest

/-- The pattern that a word is; a bracket without its counterpart is a plain character. -/
def ofGlyphs : Nat → List Glyph → Pattern
  | 0, _ | _, [] => []
  | fuel + 1, glyph :: rest =>
      if glyph.isSign '*' then .many :: ofGlyphs fuel rest
      else if glyph.isSign '?' then .any :: ofGlyphs fuel rest
      else if glyph.isSign '[' then
        let (negated, inner) := match rest with
          | mark :: inner => if mark.isSign '!' then (true, inner) else (false, rest)
          | [] => (false, [])
        match ranges? (inner.length + 1) true inner with
        | some (ranges, rest) => .among negated ranges :: ofGlyphs fuel rest
        | none => .one '[' :: ofGlyphs fuel rest
      else .one glyph.char :: ofGlyphs fuel rest

def ofWord (word : List Glyph) : Pattern := ofGlyphs (word.length + 1) (Glyph.escaped word)

/-- Whether an end of a text has a property. -/
def someEnd (holds : List Char → Bool) : List Char → Bool
  | [] => holds []
  | c :: rest => holds (c :: rest) || someEnd holds rest

/-- Whether a pattern matches a whole text. -/
def accepts : Pattern → List Char → Bool
  | [], text => text.isEmpty
  | .many :: rest, text => someEnd (accepts rest) text
  | .any :: rest, text =>
      match text with
      | _ :: text => accepts rest text
      | [] => false
  | .one c :: rest, text =>
      match text with
      | d :: text => c == d && accepts rest text
      | [] => false
  | .among negated ranges :: rest, text =>
      match text with
      | d :: text => ranges.any (·.holds d) != negated && accepts rest text
      | [] => false

end Pattern

end NodeInventory.Command.Shell
