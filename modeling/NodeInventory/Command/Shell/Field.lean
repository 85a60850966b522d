import NodeInventory.Command.Shell.Pattern

/-!
# Splitting into words

What is expanded outside of quotes is split at separators.  Separators that are blanks join one
another, and end a word together with at most one other separator.
-/

namespace NodeInventory.Command.Shell

/-- A character of an expanded text, or a sign about the text. -/
inductive Atom
  | glyph (glyph : Glyph)
  /-- From an expansion outside of quotes: a separator here ends the word. -/
  | loose (c : Char)
  /-- Such an expansion starts here. -/
  | edge
  /-- There is a word here even if it is empty. -/
  | mark
  /-- A word ends here. -/
  | cut
deriving DecidableEq, Repr

namespace Atom

def glyph? : Atom → Option Glyph
  | glyph found => some found
  | loose c => some (.plain c)
  | edge | mark | cut => none

end Atom

/-- The text of one word that is not split. -/
def textOf (atoms : List Atom) : List Char := atoms.filterMap fun atom => atom.glyph?.map (·.char)

/-- The word that is not split. -/
def glyphsOf (atoms : List Atom) : List Glyph := atoms.filterMap Atom.glyph?

/-- Separators unless the script sets others. -/
def usualSeparators : List Char := [' ', '\t', '\n']

/-- The end of one argument of several, which separates like a blank. -/
def argumentEnd : Char := '\x00'

/-- Whether an expansion in quotes puts a mark before a character, which could be a sign. -/
def isSign (c : Char) : Bool := "!*?[]=~:/-\\".toList.contains c

/-- The mark before a sign. -/
def signMark : Char := '\x81'

/-- What memory holds from an expanded pattern up to what follows it: the pattern with a backslash
before each quoted sign, and what its quotes have left over. -/
def spelled (atoms : List Atom) : List Char :=
  let quotedBy (escape : Char) (glyph : Glyph) : List Char :=
    if glyph.quoted && isSign glyph.char then [escape, glyph.char] else [glyph.char]
  let before := atoms.flatMap fun
    | .mark => ['\x88']
    | atom => (atom.glyph?.map (quotedBy signMark)).getD []
  let pattern := (glyphsOf atoms).flatMap (quotedBy '\\') ++ [argumentEnd]
  pattern ++ (before ++ [argumentEnd]).drop pattern.length

/-- A text without what a pattern matches at its start or end, as little or as much as it can.  Of
several arguments a start is looked for in the first, a long end begins in the first, and a short
end is that of any.  With marks, the text that is looked through backwards is not the one that is
cut: the first argument, if it has signs, is copied behind the pattern without its marks, and marks
count as characters otherwise. -/
def Pattern.trim (atoms : List Atom) (marks atEnd longest : Bool) (text : List Char) : List Char :=
  let pattern := Pattern.ofWord (glyphsOf atoms)
  let firstOf (text : List Char) : List Char := text.takeWhile (· ≠ argumentEnd)
  let first := firstOf text
  let marks := marks && first.length < text.length
  let marked := if marks then
    text.flatMap fun c => if isSign c then [signMark, c] else [c] else text
  let isCopied := marks && first.any isSign
  let inFirst := List.range (first.length + 1)
  let counts := List.range (text.length + 1)
  match atEnd, longest with
  | true, true =>
      match inFirst.find? fun count => pattern.accepts (first.drop count) with
      | some count => text.take count
      | none => text
  | false, false =>
      match inFirst.find? fun count => pattern.accepts (first.take count) with
      | some count => text.drop count
      | none => text
  | true, false =>
      let memory := if isCopied then marked ++ argumentEnd :: spelled atoms ++ first else marked
      let size := memory.length
      match counts.find? fun count => pattern.accepts (firstOf (memory.drop (size - count))) with
      | some count => text.take (text.length - count)
      | none => text
  | false, true =>
      let size := if isCopied then first.length else marked.length
      match counts.find? fun count => pattern.accepts (first.take (size - count)) with
      | some count => text.drop (text.length - count)
      | none => text

structure Separators where
  chars : List Char
deriving DecidableEq, Repr

namespace Separators

variable (separators : Separators)

def separates (c : Char) : Bool := separators.chars.contains c || c == argumentEnd

/-- Whether a separator joins its neighbours. -/
def isBlank (c : Char) : Bool :=
  separators.separates c && (usualSeparators.contains c || c == argumentEnd)

/-- What a separator that has ended a word lets follow before the next word starts. -/
inductive Behind
  | nothing
  | blanks
  /-- Blanks with at most one other separator among them. -/
  | separator
deriving DecidableEq, Repr

/-- The words of an expansion; the glyphs read of the current one come last first. -/
def words (current : Option (List Glyph)) (behind : Behind) : List Atom → List (List Glyph)
  | [] => (current.map List.reverse).toList
  | .glyph found :: rest => words (some (found :: current.getD [])) .nothing rest
  | .mark :: rest => words (some (current.getD [])) .nothing rest
  | .edge :: rest => words current .nothing rest
  | .cut :: rest => (current.map List.reverse).toList ++ words none .nothing rest
  | .loose c :: rest =>
      if !separators.separates c then words (some (.plain c :: current.getD [])) .nothing rest
      else if separators.isBlank c then
        if behind ≠ .nothing then words none behind rest
        else
          match current with
          | none => words none .nothing rest
          | some word => word.reverse :: words none .separator rest
      else if behind = .separator then words none .blanks rest
      else (current.getD []).reverse :: words none .blanks rest

/-- A line on its way to be dealt out as words. -/
structure Dealing where
  /-- The words so far, the last one first. -/
  words : List (List Glyph)
  /-- The current word, its last glyph first. -/
  current : List Glyph
  /-- How many words are still wanted; with none wanted the current one takes in what is left. -/
  wanted : Nat
  /-- How much of the current word stays if the line ends here. -/
  kept : Option Nat
  /-- Whether a blank has ended a word, so that separators are skipped. -/
  skips : Bool

/-- Takes the next glyph of a line.  At a quoted one no word ends, and skipping does. -/
def Dealing.next (dealing : Dealing) (glyph : Glyph) : Dealing :=
  let separates := separators.separates glyph.char
  let blank := separators.isBlank glyph.char
  let current := glyph :: dealing.current
  if glyph.quoted then { dealing with current, skips := false }
  else if dealing.wanted = 0 then
    if blank then { dealing with current, kept := dealing.kept <|> some dealing.current.length }
    else
      let kept := if separates && dealing.skips then dealing.kept else none
      { dealing with current, kept, skips := false }
  else if dealing.skips then
    { dealing with current := if separates then [] else [glyph], skips := blank }
  else if !separates then { dealing with current }
  else if blank && dealing.current.isEmpty then dealing
  else if dealing.wanted = 1 then
    { dealing with current, wanted := 0, kept := some dealing.current.length, skips := blank }
  else
    { dealing with
      words := dealing.current.reverse :: dealing.words
      current := [], wanted := dealing.wanted - 1, skips := blank }

/-- Deals the words of a line out to a number of names; the last gets all that is left. -/
def deal (count : Nat) (line : List Glyph) : List (List Char) :=
  let dealing := line.foldl (Dealing.next separators) ⟨[], [], count, none, false⟩
  let last := dealing.current.reverse.take (dealing.kept.getD dealing.current.length)
  let words := (if last.isEmpty then dealing.words else last :: dealing.words).reverse
  words.map (fun word => word.map (·.char)) ++ List.replicate (count - words.length) []

end Separators

end NodeInventory.Command.Shell
