import NodeInventory.Json.Scalar

/-!
# Passing over JSON text

A value that nobody asked for is passed over by its syntax alone: no encoding, no surrogates, no
range of numbers and no depth is looked at, and a numeral that the input cuts off counts as
malformed.  The open brackets are kept on a stack.
-/

namespace NodeInventory.Json

inductive Bracket
  | array
  | object
deriving DecidableEq, Repr

def Bracket.close : Bracket → UInt8
  | .array => ascii ']'
  | .object => ascii '}'

/-- What has to come next: a value, an item of the innermost brackets (or their end, if they have
only been opened), or a comma or the end of them. -/
inductive Awaited
  | value
  | item (opened : Bool)
  | separator
deriving DecidableEq, Repr

/-- Passes over the scalar that starts with `b`. -/
def skipScalar (b : UInt8) (rest : List UInt8) : Except Fault (List UInt8) :=
  if b = ascii '"' then skipString rest
  else if b = ascii 'n' then keyword ("ull".toList.map ascii) rest
  else if b = ascii 't' then keyword ("rue".toList.map ascii) rest
  else if b = ascii 'f' then keyword ("alse".toList.map ascii) rest
  else if b = ascii '-' ∨ isDigit b then (numeral .malformed (b :: rest)).map (·.2)
  else .error .malformed

theorem length_lt_of_skipScalar {b : UInt8} {bytes rest : List UInt8}
    (h : skipScalar b bytes = .ok rest) : rest.length < (b :: bytes).length := by
  unfold skipScalar at h
  split at h
  · exact Nat.lt_succ_of_lt (length_lt_of_skipString h)
  iterate 3
    split at h
    · exact Nat.lt_succ_of_le (length_le_of_keyword h)
  split at h
  · obtain ⟨_, read, eq⟩ := map_eq_ok h
    cases eq
    exact length_lt_of_numeral read
  · cases h

/-- Passes over a key and its colon. -/
def skipKey (bytes : List UInt8) : Except Fault (List UInt8) :=
  match mark (ascii '"') bytes with
  | .error fault => .error fault
  | .ok rest =>
      match skipString rest with
      | .error fault => .error fault
      | .ok rest => mark (ascii ':') rest

theorem length_lt_of_skipKey {bytes rest : List UInt8} (h : skipKey bytes = .ok rest) :
    rest.length < bytes.length := by
  unfold skipKey at h
  split at h
  · cases h
  next quote =>
    split at h
    · cases h
    next body =>
      have := length_lt_of_mark quote
      have := length_lt_of_skipString body
      have := length_lt_of_mark h
      omega

/-- What is awaited after a step, the open brackets then, and the rest. -/
abbrev Step := Awaited × List Bracket × List UInt8

/-- A value: an opening bracket goes onto the stack, a scalar is passed over. -/
def skipHead (stack : List Bracket) (b : UInt8) (rest : List UInt8) : Except Fault Step :=
  if b = ascii '[' then .ok (.item true, .array :: stack, rest)
  else if b = ascii '{' then .ok (.item true, .object :: stack, rest)
  else (skipScalar b rest).map fun rest => (.separator, stack, rest)

/-- The item that starts with `b`: a value in an array, a key in an object. -/
def skipItem (top : Bracket) (stack : List Bracket) (b : UInt8) (rest : List UInt8) :
    Except Fault Step :=
  match top with
  | .array => skipHead (top :: stack) b rest
  | .object => (skipKey (b :: rest)).map fun rest => (.value, top :: stack, rest)

def skipStep (awaited : Awaited) (stack : List Bracket) (bytes : List UInt8) : Except Fault Step :=
  match skipBlank bytes with
  | [] => .error .truncated
  | b :: rest =>
      match awaited, stack with
      | .value, stack => skipHead stack b rest
      | .item _, [] => .error .malformed
      | .separator, [] => .error .malformed
      | .item opened, top :: stack =>
          if opened && b = top.close then .ok (.separator, stack, rest)
          else skipItem top stack b rest
      | .separator, top :: stack =>
          if b = top.close then .ok (.separator, stack, rest)
          else if b = ascii ',' then .ok (.item false, top :: stack, rest)
          else .error .malformed

theorem length_lt_of_skipHead {stack : List Bracket} {b : UInt8} {bytes : List UInt8} {step : Step}
    (h : skipHead stack b bytes = .ok step) : step.2.2.length < (b :: bytes).length := by
  unfold skipHead at h
  split at h
  · cases h; exact Nat.lt_succ_self _
  split at h
  · cases h; exact Nat.lt_succ_self _
  · obtain ⟨_, read, eq⟩ := map_eq_ok h
    cases eq
    exact length_lt_of_skipScalar read

theorem length_lt_of_skipItem {top : Bracket} {stack : List Bracket} {b : UInt8}
    {bytes : List UInt8} {step : Step} (h : skipItem top stack b bytes = .ok step) :
    step.2.2.length < (b :: bytes).length := by
  unfold skipItem at h
  split at h
  · exact length_lt_of_skipHead h
  · obtain ⟨_, read, eq⟩ := map_eq_ok h
    cases eq
    exact length_lt_of_skipKey read

theorem length_lt_of_skipStep {awaited : Awaited} {stack : List Bracket} {bytes : List UInt8}
    {step : Step} (h : skipStep awaited stack bytes = .ok step) :
    step.2.2.length < bytes.length := by
  unfold skipStep at h
  cases found : skipBlank bytes with
  | nil => rw [found] at h; cases h
  | cons b tail =>
      have shorter := length_lt_of_skipBlank found
      rw [found] at h
      cases awaited <;> cases stack
      case value.nil | value.cons => exact Nat.lt_of_lt_of_le (length_lt_of_skipHead h) shorter
      case item.nil | separator.nil => cases h
      case item.cons =>
        dsimp only at h
        split at h
        · cases h; exact shorter
        · exact Nat.lt_of_lt_of_le (length_lt_of_skipItem h) shorter
      case separator.cons =>
        dsimp only at h
        split at h
        · cases h; exact shorter
        split at h
        · cases h; exact shorter
        · cases h

/-- Passes over all that the open brackets still demand. -/
def skipOpen (awaited : Awaited) (stack : List Bracket) (bytes : List UInt8) :
    Except Fault (List UInt8) :=
  match _step : skipStep awaited stack bytes with
  | .error fault => .error fault
  | .ok (.separator, [], rest) => .ok rest
  | .ok (awaited, stack, rest) => skipOpen awaited stack rest
termination_by bytes.length
decreasing_by exact length_lt_of_skipStep ‹_›

def skipValue (bytes : List UInt8) : Except Fault (List UInt8) := skipOpen .value [] bytes

theorem length_lt_of_skipOpen {awaited : Awaited} {stack : List Bracket} {bytes rest : List UInt8}
    (h : skipOpen awaited stack bytes = .ok rest) : rest.length < bytes.length := by
  fun_induction skipOpen awaited stack bytes with
  | case1 => cases h
  | case2 awaited stack bytes tail step => cases h; exact length_lt_of_skipStep step
  | case3 awaited stack bytes next brackets tail _ step ih =>
      exact Nat.lt_trans (ih h) (length_lt_of_skipStep step)

theorem length_lt_of_skipValue {bytes rest : List UInt8} (h : skipValue bytes = .ok rest) :
    rest.length < bytes.length := length_lt_of_skipOpen h

end NodeInventory.Json
