/-!
# Searching text

`after? m s` is what follows the leftmost occurrence of `m` in `s`.
-/

namespace NodeInventory.Text

/-- The text after the leftmost occurrence of `m`; the empty text occurs at once. -/
def after? (m : List Char) : List Char → Option (List Char)
  | [] => if m = [] then some [] else none
  | c :: s => if m.isPrefixOf (c :: s) then some ((c :: s).drop m.length) else after? m s

def contains (m s : List Char) : Bool := (after? m s).isSome

/-- Length of the UTF-8 form. -/
def byteLength : List Char → Nat
  | [] => 0
  | c :: s => c.utf8Size + byteLength s

@[simp] theorem byteLength_nil : byteLength [] = 0 := rfl

@[simp] theorem byteLength_cons (c : Char) (s : List Char) :
    byteLength (c :: s) = c.utf8Size + byteLength s := rfl

theorem byteLength_append (s t : List Char) :
    byteLength (s ++ t) = byteLength s + byteLength t := by
  induction s with
  | nil => simp
  | cons c s ih => simp [ih, Nat.add_assoc]

/-- ASCII letters in lower case, all other characters as they are. -/
def lower (s : List Char) : List Char := s.map Char.toLower

end NodeInventory.Text
