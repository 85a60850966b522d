import NodeInventory.Text.Blank
import NodeInventory.Text.Search

/-!
# Selecting a line of a banner and a token of that line
-/

namespace NodeInventory.Banner

open Text

inductive LineSelector
  | first
  | contains (text : String)
  | startsWith (text : String)
deriving DecidableEq, Repr

inductive TokenSelector
  | field (index : Nat)
  | after (marker : String)
deriving DecidableEq, Repr

/-- Punctuation that does not belong to a version at either end of a word. -/
def isTrimmed (c : Char) : Bool := c ∈ ['(', ')', '[', ']', ',', ';', '\'', '"']

/-- A version is at most this many bytes long. -/
def maxTokenBytes : Nat := 64

namespace LineSelector

def accepts : LineSelector → List Char → Bool
  | .first, _ => true
  | .contains text, line => Text.contains text.toList line
  | .startsWith text, line => text.toList.isPrefixOf line

end LineSelector

/-- The word less its punctuation, unless nothing or too much is left. -/
def tokenOfWord (word : List Char) : Option (List Char) :=
  let token := strip isTrimmed word
  if token = [] ∨ maxTokenBytes < byteLength token then none else some token

namespace TokenSelector

/-- The word a selector points at, punctuation included. -/
def word? : TokenSelector → List Char → Option (List Char)
  | .field index, line => (words line)[index]?
  | .after marker, line => (after? marker.toList line).bind fun found => (words found).head?

def capture (selector : TokenSelector) (line : List Char) : Option (List Char) :=
  (selector.word? line).bind tokenOfWord

end TokenSelector

end NodeInventory.Banner
