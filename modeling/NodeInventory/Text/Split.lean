/-!
# Cutting sequences at chosen elements

`split` cuts at every element a test accepts and keeps the pieces, `strip` drops accepted elements
from both ends.  Both are generic, so text and raw bytes are cut by one definition.
-/

namespace NodeInventory.Text

variable {α : Type _}

/-- The pieces between the elements that `p` accepts, empty ones included. -/
def split (p : α → Bool) : List α → List (List α)
  | [] => [[]]
  | a :: s =>
      if p a then [] :: split p s
      else match split p s with
        | [] => [[a]]
        | piece :: rest => (a :: piece) :: rest

theorem split_ne_nil (p : α → Bool) (s : List α) : split p s ≠ [] := by
  cases s with
  | nil => simp [split]
  | cons a s =>
      simp only [split]
      split
      · simp
      · split <;> simp

@[simp] theorem split_nil (p : α → Bool) : split p [] = [[]] := rfl

theorem split_cons_of_pos {p : α → Bool} {a : α} (h : p a = true) (s : List α) :
    split p (a :: s) = [] :: split p s := by simp [split, h]

/-- `s` without the accepted elements at its two ends. -/
def strip (p : α → Bool) (s : List α) : List α :=
  ((s.dropWhile p).reverse.dropWhile p).reverse

@[simp] theorem strip_nil (p : α → Bool) : strip p [] = [] := rfl

end NodeInventory.Text
