import NodeInventory.Json.Skip
import NodeInventory.Json.Value

/-!
# Readers of wanted types

A record is an object with its fields in any order and unknown members passed over, or an array of
its fields in order.  A repeated field is refused right behind its key, a missing one at the end of
the record.
-/

namespace NodeInventory.Json

namespace Reader

def text : Reader String where
  run := readTyped (fun | .string s => some s | _ => none) fun _ => none
  progress := length_lt_of_readTyped fun opened => by cases opened

/-- A plain natural number of eight bits. -/
def octet : Reader UInt8 where
  run := readTyped
    (fun
      | .number n => n.natural?.bind fun n => if n ≤ 255 then some (UInt8.ofNat n) else none
      | _ => none)
    fun _ => none
  progress := length_lt_of_readTyped fun opened => by cases opened

/-- A value between brackets, read behind the opening one. -/
def bracketed {α : Type} (opening : UInt8) (body : List UInt8 → Except Fault (α × List UInt8))
    (shorter : ∀ {bytes a rest}, body bytes = .ok (a, rest) → rest.length < bytes.length) :
    Reader α where
  run := readTyped (fun _ => none) fun b => if b = opening then some body else none
  progress := by
    refine length_lt_of_readTyped fun opened read => ?_
    split at opened <;> cases opened
    exact shorter read

def list {α : Type} (item : Reader α) : Reader (List α) :=
  bracketed (ascii '[') (listOf (ascii ']') item) length_lt_of_listOf

/-- An object whose members are alike, in textual order. -/
def dictionary {α : Type} (value : Reader α) : Reader (List (String × α)) :=
  bracketed (ascii '{') (listOf (ascii '}') (member value)) length_lt_of_listOf

end Reader

/-- The fields of a record: their names in order, other names they go by, how the value of each is
read, and what a record with given fields is.  `build` fails where a field is missing. -/
structure Shape (ν α : Type) where
  names : List String
  aliases : List (String × String)
  value : String → Reader ν
  build : List (String × ν) → Option α

namespace Shape

variable {ν α : Type} (shape : Shape ν α)

/-- The field that a key names. -/
def field? (name : String) : Option String :=
  let name := (shape.aliases.lookup name).getD name
  if name ∈ shape.names then some name else none

/-- One member of the object form, given the fields read before it. -/
def memberAt (fields : List (String × ν)) (bytes : List UInt8) :
    Except Fault (List (String × ν) × List UInt8) :=
  match key bytes with
  | .error fault => .error fault
  | .ok (name, rest) =>
      match shape.field? name with
      | none =>
          match mark (ascii ':') rest with
          | .error fault => .error fault
          | .ok rest => (skipValue rest).map (fields, ·)
      | some name =>
          if fields.any (·.1 == name) then .error .mismatch
          else
            match mark (ascii ':') rest with
            | .error fault => .error fault
            | .ok rest =>
                ((shape.value name).run rest).map fun found => ((name, found.1) :: fields, found.2)

theorem length_lt_of_memberAt {fields final : List (String × ν)} {bytes rest : List UInt8}
    (h : shape.memberAt fields bytes = .ok (final, rest)) : rest.length < bytes.length := by
  unfold memberAt at h
  split at h
  · cases h
  next named =>
    have := length_lt_of_key named
    split at h
    · split at h
      · cases h
      next colon =>
        obtain ⟨_, read, eq⟩ := map_eq_ok h
        cases eq
        have := length_lt_of_mark colon
        have := length_lt_of_skipValue read
        omega
    · split at h
      · cases h
      split at h
      · cases h
      next colon =>
        obtain ⟨_, read, eq⟩ := map_eq_ok h
        cases eq
        have := length_lt_of_mark colon
        have := (shape.value _).progress read
        omega

def named (bytes : List UInt8) : Except Fault (List (String × ν) × List UInt8) :=
  items (ascii '}') (fun fields => ⟨shape.memberAt fields, shape.length_lt_of_memberAt⟩) false []
    bytes

/-- The array form from some field on, given the fields before it.  It may end early. -/
def positional (more : Bool) (fields : List (String × ν)) :
    List String → List UInt8 → Except Fault (List (String × ν) × List UInt8)
  | [], bytes => (mark (ascii ']') bytes).map (fields, ·)
  | name :: names, bytes =>
      match turn (ascii ']') more bytes with
      | .error fault => .error fault
      | .ok (.closed rest) => .ok (fields, rest)
      | .ok (.item start) =>
          match (shape.value name).run start with
          | .error fault => .error fault
          | .ok (found, rest) => positional true ((name, found) :: fields) names rest

theorem length_lt_of_positional {more : Bool} {fields final : List (String × ν)}
    {names : List String} {bytes rest : List UInt8}
    (h : shape.positional more fields names bytes = .ok (final, rest)) :
    rest.length < bytes.length := by
  induction names generalizing more fields bytes with
  | nil =>
      obtain ⟨_, read, eq⟩ := map_eq_ok h
      cases eq
      exact length_lt_of_mark read
  | cons name names ih =>
      unfold positional at h
      split at h
      · cases h
      next turned => cases h; exact length_lt_of_turn_closed turned
      next turned =>
        split at h
        · cases h
        next read =>
          have := ih h
          have := (shape.value name).progress read
          have := length_le_of_turn_item turned
          omega

/-- The fields of a record in the form that its bracket announces. -/
def fieldsIn (b : UInt8) (bytes : List UInt8) : Except Fault (List (String × ν) × List UInt8) :=
  if b = ascii '[' then shape.positional false [] shape.names bytes else shape.named bytes

def body (b : UInt8) (bytes : List UInt8) : Except Fault (α × List UInt8) :=
  match shape.fieldsIn b bytes with
  | .error fault => .error fault
  | .ok (fields, rest) =>
      match shape.build fields with
      | some record => .ok (record, rest)
      | none => .error .mismatch

def reader : Reader α where
  run := readTyped (fun _ => none) fun b => if isBracket b then some (shape.body b) else none
  progress := by
    refine length_lt_of_readTyped fun opened read => ?_
    split at opened <;> cases opened
    unfold body at read
    split at read
    · cases read
    next found =>
      split at read <;> cases read
      unfold fieldsIn at found
      split at found
      · exact shape.length_lt_of_positional found
      · exact length_lt_of_items found

end Shape

end NodeInventory.Json
