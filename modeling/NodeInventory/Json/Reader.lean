/-!
# Readers of JSON text

A reader takes something off the front of a sequence of bytes, at least one byte of it, or says at
which kind of fault it stops.  Texts are read in one pass and the first fault met decides.
-/

namespace NodeInventory.Json

inductive Fault
  /-- The input ends inside a value. -/
  | truncated
  /-- The input is not JSON, or goes on after its value. -/
  | malformed
  /-- The input is JSON so far, but not what is asked for. -/
  | mismatch
deriving DecidableEq, Repr

structure Reader (α : Type) where
  run : List UInt8 → Except Fault (α × List UInt8)
  progress : ∀ {bytes a rest}, run bytes = .ok (a, rest) → rest.length < bytes.length

abbrev ascii (c : Char) : UInt8 := c.toUInt8

def isBlank (b : UInt8) : Bool := b = 0x20 || b = 0x09 || b = 0x0A || b = 0x0D

def skipBlank (bytes : List UInt8) : List UInt8 := bytes.dropWhile isBlank

theorem length_skipBlank_le (bytes : List UInt8) : (skipBlank bytes).length ≤ bytes.length :=
  (List.dropWhile_suffix _).length_le

theorem length_lt_of_skipBlank {bytes : List UInt8} {b : UInt8} {rest : List UInt8}
    (h : skipBlank bytes = b :: rest) : rest.length < bytes.length := by
  have := length_skipBlank_le bytes
  rw [h] at this
  exact this

@[simp] theorem skipBlank_nil : skipBlank [] = [] := rfl

/-- The given bytes and no others. -/
def keyword : List UInt8 → List UInt8 → Except Fault (List UInt8)
  | [], rest => .ok rest
  | _ :: _, [] => .error .truncated
  | k :: word, b :: rest => if b = k then keyword word rest else .error .malformed

theorem length_le_of_keyword {word bytes rest : List UInt8} (h : keyword word bytes = .ok rest) :
    rest.length ≤ bytes.length := by
  induction word generalizing bytes with
  | nil => cases h; exact Nat.le_refl _
  | cons k word ih =>
      cases bytes with
      | nil => cases h
      | cons b bytes =>
          simp only [keyword] at h
          split at h
          · exact Nat.le_succ_of_le (ih h)
          · cases h

/-- A single byte after blanks. -/
def mark (wanted : UInt8) (bytes : List UInt8) : Except Fault (List UInt8) :=
  match skipBlank bytes with
  | [] => .error .truncated
  | b :: rest => if b = wanted then .ok rest else .error .malformed

theorem length_lt_of_mark {wanted : UInt8} {bytes rest : List UInt8}
    (h : mark wanted bytes = .ok rest) : rest.length < bytes.length := by
  unfold mark at h
  split at h
  · cases h
  next eq =>
    split at h
    · cases h; exact length_lt_of_skipBlank eq
    · cases h

/-- What comes next inside brackets: their end, or an item that starts with the given bytes. -/
inductive Turn
  | closed (rest : List UInt8)
  | item (start : List UInt8)
deriving DecidableEq, Repr

/-- The next turn; `more` says that there were items before, so that a comma has to come first. -/
def turn (close : UInt8) (more : Bool) (bytes : List UInt8) : Except Fault Turn :=
  match skipBlank bytes with
  | [] => .error .truncated
  | b :: rest =>
      if b = close then .ok (.closed rest)
      else if more = false then .ok (.item (b :: rest))
      else if b = ascii ',' then .ok (.item rest)
      else .error .malformed

theorem length_lt_of_turn_closed {close : UInt8} {more : Bool} {bytes rest : List UInt8}
    (h : turn close more bytes = .ok (.closed rest)) : rest.length < bytes.length := by
  unfold turn at h
  split at h
  · cases h
  next eq =>
    repeat' split at h
    all_goals cases h
    exact length_lt_of_skipBlank eq

theorem length_le_of_turn_item {close : UInt8} {more : Bool} {bytes start : List UInt8}
    (h : turn close more bytes = .ok (.item start)) : start.length ≤ bytes.length := by
  unfold turn at h
  split at h
  · cases h
  next eq =>
    have := length_lt_of_skipBlank eq
    repeat' split at h
    all_goals cases h
    · exact this
    · exact Nat.le_of_lt this

/-- Items up to a closing byte, parted by commas.  Each item is read in the state that the ones
before it have left. -/
def items {σ : Type} (close : UInt8) (item : σ → Reader σ) (more : Bool) (state : σ)
    (bytes : List UInt8) : Except Fault (σ × List UInt8) :=
  match _turned : turn close more bytes with
  | .error fault => .error fault
  | .ok (.closed rest) => .ok (state, rest)
  | .ok (.item start) =>
      match _read : (item state).run start with
      | .error fault => .error fault
      | .ok (state, rest) => items close item true state rest
termination_by bytes.length
decreasing_by exact Nat.lt_of_lt_of_le ((item _).progress ‹_›) (length_le_of_turn_item ‹_›)

theorem length_lt_of_items {σ : Type} {close : UInt8} {item : σ → Reader σ} {more : Bool}
    {state final : σ} {bytes rest : List UInt8}
    (h : items close item more state bytes = .ok (final, rest)) : rest.length < bytes.length := by
  fun_induction items close item more state bytes with
  | case1 => cases h
  | case2 more state bytes tail turned => cases h; exact length_lt_of_turn_closed turned
  | case3 => cases h
  | case4 more state bytes start turned next tail read ih =>
      exact Nat.lt_trans (ih h)
        (Nat.lt_of_lt_of_le ((item state).progress read) (length_le_of_turn_item turned))

/-- A value with nothing but blanks after it. -/
def document {α : Type} (reader : Reader α) (bytes : List UInt8) : Except Fault α :=
  match reader.run bytes with
  | .error fault => .error fault
  | .ok (a, rest) => if skipBlank rest = [] then .ok a else .error .malformed

end NodeInventory.Json
