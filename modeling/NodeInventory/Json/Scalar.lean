import NodeInventory.Json.Numeral
import NodeInventory.Json.Text

/-!
# Values of JSON text without parts

Readers of a wanted type read any such value to its end before they refuse it, so that a fault
inside it comes first; the opening bracket of another value is refused at once.
-/

namespace NodeInventory.Json

inductive Scalar
  | null
  | bool (value : Bool)
  | number (value : Numeral)
  | string (value : String)
deriving DecidableEq, Repr

def isBracket (b : UInt8) : Bool := b = ascii '[' || b = ascii '{'

/-- A number, refused when it is out of range. -/
def rangedNumeral (bytes : List UInt8) : Except Fault (Numeral × List UInt8) :=
  match numeral .truncated bytes with
  | .error fault => .error fault
  | .ok (n, rest) => if n.inRange then .ok (n, rest) else .error .malformed

theorem length_lt_of_rangedNumeral {bytes rest : List UInt8} {n : Numeral}
    (h : rangedNumeral bytes = .ok (n, rest)) : rest.length < bytes.length := by
  unfold rangedNumeral at h
  split at h
  · cases h
  next read =>
    split at h <;> cases h
    exact length_lt_of_numeral read

/-- The scalar that starts with `b`. -/
def scalarAt (b : UInt8) (rest : List UInt8) : Except Fault (Scalar × List UInt8) :=
  if b = ascii '"' then (stringBody rest).map fun found => (.string found.1, found.2)
  else if b = ascii 'n' then (keyword ("ull".toList.map ascii) rest).map (Scalar.null, ·)
  else if b = ascii 't' then (keyword ("rue".toList.map ascii) rest).map (Scalar.bool true, ·)
  else if b = ascii 'f' then (keyword ("alse".toList.map ascii) rest).map (Scalar.bool false, ·)
  else if b = ascii '-' ∨ isDigit b then
    (rangedNumeral (b :: rest)).map fun found => (.number found.1, found.2)
  else .error .malformed

theorem map_eq_ok {ε α β : Type} {f : α → β} {x : Except ε α} {b : β} (h : x.map f = .ok b) :
    ∃ a, x = .ok a ∧ f a = b := by
  cases x with
  | error => cases h
  | ok a => exact ⟨a, rfl, Except.ok.inj h⟩

theorem length_lt_of_scalarAt {b : UInt8} {bytes rest : List UInt8} {s : Scalar}
    (h : scalarAt b bytes = .ok (s, rest)) : rest.length < (b :: bytes).length := by
  unfold scalarAt at h
  split at h
  · obtain ⟨_, read, eq⟩ := map_eq_ok h
    cases eq
    exact Nat.lt_succ_of_lt (length_lt_of_stringBody read)
  iterate 3
    split at h
    · obtain ⟨_, read, eq⟩ := map_eq_ok h
      cases eq
      exact Nat.lt_succ_of_le (length_le_of_keyword read)
  split at h
  · obtain ⟨_, read, eq⟩ := map_eq_ok h
    cases eq
    exact length_lt_of_rangedNumeral read
  · cases h

/-- A value that `accept` takes from a scalar, or one that `inside` reads after its opening byte. -/
def readTyped {α : Type} (accept : Scalar → Option α)
    (inside : UInt8 → Option (List UInt8 → Except Fault (α × List UInt8))) (bytes : List UInt8) :
    Except Fault (α × List UInt8) :=
  match skipBlank bytes with
  | [] => .error .truncated
  | b :: rest =>
      match inside b with
      | some read => read rest
      | none =>
          if isBracket b then .error .mismatch
          else match scalarAt b rest with
            | .error fault => .error fault
            | .ok (s, rest) =>
                match accept s with
                | some a => .ok (a, rest)
                | none => .error .mismatch

theorem length_lt_of_readTyped {α : Type} {accept : Scalar → Option α}
    {inside : UInt8 → Option (List UInt8 → Except Fault (α × List UInt8))}
    (shorter : ∀ {b read bytes a rest}, inside b = some read → read bytes = .ok (a, rest) →
      rest.length < bytes.length)
    {bytes rest : List UInt8} {a : α} (h : readTyped accept inside bytes = .ok (a, rest)) :
    rest.length < bytes.length := by
  unfold readTyped at h
  split at h
  · cases h
  next found =>
    split at h
    next opened => exact Nat.lt_trans (shorter opened h) (length_lt_of_skipBlank found)
    split at h
    · cases h
    split at h
    · cases h
    next read =>
      split at h <;> cases h
      have := length_lt_of_scalarAt read
      have := length_lt_of_skipBlank found
      simp only [List.length_cons] at *; omega

end NodeInventory.Json
