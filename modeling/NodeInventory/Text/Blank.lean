import NodeInventory.Text.Split

/-!
# Blank characters, words and lines

A blank is a character with the Unicode property White_Space.  Words are the non-empty pieces
between blanks; lines are the trimmed, non-empty pieces between newlines and carriage returns.
-/

namespace NodeInventory.Text

/-- The code point ranges of White_Space, ends included. -/
def blankRanges : List (Nat × Nat) :=
  [(0x09, 0x0D), (0x20, 0x20), (0x85, 0x85), (0xA0, 0xA0), (0x1680, 0x1680), (0x2000, 0x200A),
   (0x2028, 0x2029), (0x202F, 0x202F), (0x205F, 0x205F), (0x3000, 0x3000)]

def isBlank (c : Char) : Bool :=
  blankRanges.any fun range => range.1 ≤ c.toNat && c.toNat ≤ range.2

def isLineBreak (c : Char) : Bool := c == '\n' || c == '\r'

theorem isBlank_of_isLineBreak {c : Char} (h : isLineBreak c = true) : isBlank c = true := by
  simp only [isLineBreak, Bool.or_eq_true, beq_iff_eq] at h
  rcases h with rfl | rfl <;> decide

def trim (s : List Char) : List Char := strip isBlank s

def words (s : List Char) : List (List Char) := (split isBlank s).filter (· ≠ [])

/-- The trimmed lines of a text that hold more than blanks, in order. -/
def lines (s : List Char) : List (List Char) :=
  ((split isLineBreak s).map trim).filter (· ≠ [])

/-- A text of blanks only, the empty one included. -/
def IsBlankText (s : List Char) : Prop := ∀ c ∈ s, isBlank c = true

instance (s : List Char) : Decidable (IsBlankText s) :=
  List.decidableBAll (fun c => isBlank c = true) s

end NodeInventory.Text
