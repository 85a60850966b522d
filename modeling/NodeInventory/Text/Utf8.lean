/-!
# UTF-8

`next` takes one character off a sequence of bytes, or one maximal invalid run: the longest start
of a well-formed character that the following byte breaks off, and at least one byte.  `decode?`
accepts well-formed bytes only, `decodeLossy` reads every invalid run as U+FFFD.
-/

namespace NodeInventory.Text.Utf8

def encode (s : List Char) : List UInt8 := s.flatMap String.utf8EncodeChar

@[simp] theorem encode_nil : encode [] = [] := rfl

@[simp] theorem encode_cons (c : Char) (s : List Char) :
    encode (c :: s) = String.utf8EncodeChar c ++ encode s := rfl

@[simp] theorem encode_append (s t : List Char) : encode (s ++ t) = encode s ++ encode t := by
  simp [encode]

/-- What a first byte announces: the number of bytes that follow, the range of the first of them,
and the leading bits of the code point. -/
structure Lead where
  more : Nat
  low : Nat
  high : Nat
  bits : Nat
deriving DecidableEq, Repr

/-- A byte that starts no character has no lead: continuation bytes, C0, C1 and all from F5 on. -/
def Lead.of? (b : Nat) : Option Lead :=
  if b < 0x80 then some ⟨0, 0x80, 0xBF, b⟩
  else if b < 0xC2 then none
  else if b < 0xE0 then some ⟨1, 0x80, 0xBF, b - 0xC0⟩
  else if b = 0xE0 then some ⟨2, 0xA0, 0xBF, 0⟩
  else if b = 0xED then some ⟨2, 0x80, 0x9F, 0xD⟩
  else if b < 0xF0 then some ⟨2, 0x80, 0xBF, b - 0xE0⟩
  else if b = 0xF0 then some ⟨3, 0x90, 0xBF, 0⟩
  else if b < 0xF4 then some ⟨3, 0x80, 0xBF, b - 0xF0⟩
  else if b = 0xF4 then some ⟨3, 0x80, 0x8F, 4⟩
  else none

/-- Reads `more` further bytes, the first of them within the given range. -/
def rest (low high : Nat) : Nat → Nat → List UInt8 → Option Nat × List UInt8
  | 0, code, bytes => (some code, bytes)
  | _ + 1, _, [] => (none, [])
  | more + 1, code, b :: bytes =>
      if low ≤ b.toNat ∧ b.toNat ≤ high then
        rest 0x80 0xBF more (code * 64 + b.toNat % 64) bytes
      else (none, b :: bytes)

theorem length_rest_le (low high more code : Nat) (bytes : List UInt8) :
    (rest low high more code bytes).2.length ≤ bytes.length := by
  induction more generalizing low high code bytes with
  | zero => simp [rest]
  | succ more ih =>
      cases bytes with
      | nil => simp [rest]
      | cons b bytes =>
          simp only [rest]
          split
          · exact Nat.le_trans (ih ..) (by simp)
          · simp

/-- One character or one invalid run off the bytes that start with `b`. -/
def next (b : UInt8) (bytes : List UInt8) : Option Char × List UInt8 :=
  match Lead.of? b.toNat with
  | none => (none, bytes)
  | some lead =>
      let found := rest lead.low lead.high lead.more lead.bits bytes
      (found.1.map Char.ofNat, found.2)

theorem length_next_le (b : UInt8) (bytes : List UInt8) :
    (next b bytes).2.length ≤ bytes.length := by
  simp only [next]
  split
  · simp
  · exact length_rest_le ..

/-- The characters of a byte sequence in order, `none` for an invalid run. -/
def units : List UInt8 → List (Option Char)
  | [] => []
  | b :: bytes => (next b bytes).1 :: units (next b bytes).2
termination_by bytes => bytes.length
decreasing_by exact Nat.lt_succ_of_le (length_next_le b bytes)

def decode? (bytes : List UInt8) : Option (List Char) := (units bytes).mapM id

def decodeLossy (bytes : List UInt8) : List Char :=
  (units bytes).map fun unit => unit.getD '\uFFFD'

end NodeInventory.Text.Utf8
