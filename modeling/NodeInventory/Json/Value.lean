import NodeInventory.Json.Scalar

/-!
# JSON values

A value is read from a text of at most `maxDepth` nested brackets.  Objects keep their members in
textual order, repeated keys included; of those the last counts.
-/

namespace NodeInventory

open Json in
inductive Json
  | null
  | bool (value : Bool)
  | number (value : Numeral)
  | string (value : String)
  | array (items : List Json)
  | object (members : List (String × Json))
deriving Repr

namespace Json

def ofScalar : Scalar → Json
  | .null => .null
  | .bool b => .bool b
  | .number n => .number n
  | .string s => .string s

/-- The last member with a key. -/
def get? (name : String) : Json → Option Json
  | .object members => (members.reverse.find? fun member => member.1 = name).map (·.2)
  | _ => none

def bool? : Json → Option Bool
  | .bool b => some b
  | _ => none

namespace Reader

def map {α β : Type} (f : α → β) (reader : Reader α) : Reader β where
  run bytes := (reader.run bytes).map fun found => (f found.1, found.2)
  progress h := by
    obtain ⟨_, read, eq⟩ := map_eq_ok h
    cases eq
    exact reader.progress read

end Reader

/-- A key, its colon and a value. -/
def memberOf {α : Type} (value : Reader α) (bytes : List UInt8) :
    Except Fault ((String × α) × List UInt8) :=
  match key bytes with
  | .error fault => .error fault
  | .ok (name, rest) =>
      match mark (ascii ':') rest with
      | .error fault => .error fault
      | .ok rest => (value.run rest).map fun found => ((name, found.1), found.2)

def member {α : Type} (value : Reader α) : Reader (String × α) where
  run := memberOf value
  progress h := by
    unfold memberOf at h
    split at h
    · cases h
    next named =>
      split at h
      · cases h
      next colon =>
        obtain ⟨_, read, eq⟩ := map_eq_ok h
        cases eq
        have := length_lt_of_key named
        have := length_lt_of_mark colon
        have := value.progress read
        omega

/-- All items up to the closing byte, in order. -/
def listOf {α : Type} (close : UInt8) (item : Reader α) (bytes : List UInt8) :
    Except Fault (List α × List UInt8) :=
  (items close (fun before => item.map (· :: before)) false [] bytes).map
    fun found => (found.1.reverse, found.2)

theorem length_lt_of_listOf {α : Type} {close : UInt8} {item : Reader α} {bytes rest : List UInt8}
    {found : List α} (h : listOf close item bytes = .ok (found, rest)) :
    rest.length < bytes.length := by
  obtain ⟨_, read, eq⟩ := map_eq_ok h
  cases eq
  exact length_lt_of_items read

/-- What an opening bracket starts, unless no further bracket may be opened. -/
def inside (item : Option (Reader Json)) (b : UInt8) :
    Option (List UInt8 → Except Fault (Json × List UInt8)) :=
  if isBracket b then
    match item with
    | none => some fun _ => .error .malformed
    | some item =>
        some fun bytes =>
          if b = ascii '[' then
            (listOf (ascii ']') item bytes).map fun found => (.array found.1, found.2)
          else
            (listOf (ascii '}') (member item) bytes).map fun found => (.object found.1, found.2)
  else none

/-- A value whose parts, if it may have any, are read by `item`. -/
def valueOver (item : Option (Reader Json)) : Reader Json where
  run := readTyped (fun s => some (ofScalar s)) (inside item)
  progress := by
    refine length_lt_of_readTyped fun opened read => ?_
    unfold inside at opened
    split at opened
    · split at opened <;> cases opened
      · cases read
      · split at read <;> obtain ⟨_, found, eq⟩ := map_eq_ok read <;> cases eq <;>
          exact length_lt_of_listOf found
    · cases opened

/-- A value of at most `depth` nested brackets. -/
def value : Nat → Reader Json
  | 0 => valueOver none
  | depth + 1 => valueOver (some (value depth))

def maxDepth : Nat := 127

/-- The value that a text spells. -/
def parse? (text : String) : Option Json :=
  (document (value maxDepth) (Text.Utf8.encode text.toList)).toOption

end Json

end NodeInventory
