import NodeInventory.Json.Reader
import NodeInventory.Text.Utf8

/-!
# Strings of JSON text

`string` reads a string with its escapes; raw bytes have to be UTF-8 and surrogates come in pairs.
`skipString` passes over one with no more than a look at its escapes.
-/

namespace NodeInventory.Json

open Text

def hexDigit? (b : UInt8) : Option Nat :=
  if ascii '0' ≤ b ∧ b ≤ ascii '9' then some (b.toNat - 48)
  else if ascii 'a' ≤ b ∧ b ≤ ascii 'f' then some (b.toNat - 87)
  else if ascii 'A' ≤ b ∧ b ≤ ascii 'F' then some (b.toNat - 55)
  else none

def hexValue? (digits : List UInt8) : Option Nat :=
  digits.foldlM (fun n b => (hexDigit? b).map (n * 16 + ·)) 0

/-- Four hexadecimal digits. -/
def codeUnit : List UInt8 → Except Fault (Nat × List UInt8)
  | a :: b :: c :: d :: rest =>
      match hexValue? [a, b, c, d] with
      | some n => .ok (n, rest)
      | none => .error .malformed
  | _ => .error .truncated

theorem length_lt_of_codeUnit {bytes rest : List UInt8} {n : Nat}
    (h : codeUnit bytes = .ok (n, rest)) : rest.length < bytes.length := by
  unfold codeUnit at h
  repeat' split at h
  all_goals cases h
  simp only [List.length_cons]; omega

def isHighSurrogate (n : Nat) : Bool := 0xD800 ≤ n && n ≤ 0xDBFF

def isLowSurrogate (n : Nat) : Bool := 0xDC00 ≤ n && n ≤ 0xDFFF

/-- The byte itself and nothing else. -/
def exactly (wanted : UInt8) : List UInt8 → Except Fault (List UInt8)
  | [] => .error .truncated
  | b :: rest => if b = wanted then .ok rest else .error .malformed

theorem length_lt_of_exactly {wanted : UInt8} {bytes rest : List UInt8}
    (h : exactly wanted bytes = .ok rest) : rest.length < bytes.length := by
  unfold exactly at h
  repeat' split at h
  all_goals cases h
  exact Nat.lt_succ_self _

/-- The second half of a surrogate pair, its backslash included. -/
def lowHalf (high : Nat) (bytes : List UInt8) : Except Fault (Char × List UInt8) := do
  let rest ← exactly (ascii '\\') bytes
  let rest ← exactly (ascii 'u') rest
  let (low, rest) ← codeUnit rest
  if isLowSurrogate low then
    .ok (Char.ofNat (0x10000 + (high - 0xD800) * 0x400 + (low - 0xDC00)), rest)
  else .error .malformed

/-- The character that an escape names by its code units. -/
def namedChar (bytes : List UInt8) : Except Fault (Char × List UInt8) := do
  let (n, rest) ← codeUnit bytes
  if isLowSurrogate n then .error .malformed
  else if isHighSurrogate n then lowHalf n rest
  else .ok (Char.ofNat n, rest)

/-- The characters with an escape of one letter. -/
def shortEscape? (b : UInt8) : Option Char :=
  if b = ascii '"' then some '"'
  else if b = ascii '\\' then some '\\'
  else if b = ascii '/' then some '/'
  else if b = ascii 'b' then some '\x08'
  else if b = ascii 'f' then some '\x0C'
  else if b = ascii 'n' then some '\n'
  else if b = ascii 'r' then some '\r'
  else if b = ascii 't' then some '\t'
  else none

/-- An escape without its backslash. -/
def escape : List UInt8 → Except Fault (Char × List UInt8)
  | [] => .error .truncated
  | b :: rest =>
      if b = ascii 'u' then namedChar rest
      else match shortEscape? b with
        | some c => .ok (c, rest)
        | none => .error .malformed

/-- An escape without its backslash, whatever character its digits name. -/
def skipEscape : List UInt8 → Except Fault (List UInt8)
  | [] => .error .truncated
  | b :: rest =>
      if b = ascii 'u' then (codeUnit rest).map (·.2)
      else if (shortEscape? b).isSome then .ok rest
      else .error .malformed

theorem length_lt_of_lowHalf {high : Nat} {bytes rest : List UInt8} {c : Char}
    (h : lowHalf high bytes = .ok (c, rest)) : rest.length < bytes.length := by
  simp only [lowHalf, bind, Except.bind] at h
  split at h
  · cases h
  next h₁ =>
    split at h
    · cases h
    next h₂ =>
      split at h
      · cases h
      next h₃ =>
        have := length_lt_of_exactly h₁
        have := length_lt_of_exactly h₂
        have := length_lt_of_codeUnit h₃
        split at h
        · simp only [Except.ok.injEq, Prod.mk.injEq] at h
          rw [← h.2]; omega
        · cases h

theorem length_lt_of_namedChar {bytes rest : List UInt8} {c : Char}
    (h : namedChar bytes = .ok (c, rest)) : rest.length < bytes.length := by
  simp only [namedChar, bind, Except.bind] at h
  split at h
  · cases h
  next read =>
    have := length_lt_of_codeUnit read
    split at h
    · cases h
    split at h
    · exact Nat.lt_trans (length_lt_of_lowHalf h) this
    · cases h; exact this

theorem length_lt_of_escape {bytes rest : List UInt8} {c : Char}
    (h : escape bytes = .ok (c, rest)) : rest.length < bytes.length := by
  unfold escape at h
  repeat' split at h
  any_goals cases h
  · exact Nat.lt_succ_of_lt (length_lt_of_namedChar h)
  · exact Nat.lt_succ_self _

theorem length_lt_of_skipEscape {bytes rest : List UInt8}
    (h : skipEscape bytes = .ok rest) : rest.length < bytes.length := by
  unfold skipEscape at h
  split at h
  · cases h
  split at h
  next b tail _ =>
    cases found : codeUnit tail with
    | error => rw [found] at h; cases h
    | ok read =>
        rw [found] at h; cases h
        exact Nat.lt_succ_of_lt (length_lt_of_codeUnit found)
  split at h <;> cases h
  exact Nat.lt_succ_self _

/-- The bytes that a string stands for, up to its closing quote, and what follows it. -/
def stringBytes : List UInt8 → Except Fault (List UInt8 × List UInt8)
  | [] => .error .truncated
  | b :: rest =>
      if b = ascii '"' then .ok ([], rest)
      else if b = ascii '\\' then
        match _read : escape rest with
        | .error fault => .error fault
        | .ok (c, rest) =>
            (stringBytes rest).map fun found => (String.utf8EncodeChar c ++ found.1, found.2)
      else if b < 0x20 then .error .malformed
      else (stringBytes rest).map fun found => (b :: found.1, found.2)
termination_by bytes => bytes.length
decreasing_by
  · exact Nat.lt_succ_of_lt (length_lt_of_escape ‹_›)
  · exact Nat.lt_succ_self _

theorem length_lt_of_stringBytes {bytes rest raw : List UInt8}
    (h : stringBytes bytes = .ok (raw, rest)) : rest.length < bytes.length := by
  fun_induction stringBytes bytes generalizing raw with
  | case1 => cases h
  | case2 => cases h; exact Nat.lt_succ_self _
  | case3 => cases h
  | case4 tail c next read _ ih =>
      cases found : stringBytes next with
      | error => rw [found] at h; cases h
      | ok pair =>
          rw [found] at h; cases h
          have := ih found
          have := length_lt_of_escape read
          simp only [List.length_cons]; omega
  | case5 => cases h
  | case6 b tail _ _ _ ih =>
      cases found : stringBytes tail with
      | error => rw [found] at h; cases h
      | ok pair => rw [found] at h; cases h; exact Nat.lt_succ_of_lt (ih found)

/-- A string after its opening quote. -/
def stringBody (bytes : List UInt8) : Except Fault (String × List UInt8) :=
  match stringBytes bytes with
  | .error fault => .error fault
  | .ok (raw, rest) =>
      match Utf8.decode? raw with
      | some s => .ok (String.ofList s, rest)
      | none => .error .malformed

theorem length_lt_of_stringBody {bytes rest : List UInt8} {s : String}
    (h : stringBody bytes = .ok (s, rest)) : rest.length < bytes.length := by
  unfold stringBody at h
  repeat' split at h
  all_goals cases h
  exact length_lt_of_stringBytes ‹_›

/-- Passes over a string after its opening quote. -/
def skipString : List UInt8 → Except Fault (List UInt8)
  | [] => .error .truncated
  | b :: rest =>
      if b = ascii '"' then .ok rest
      else if b = ascii '\\' then
        match _read : skipEscape rest with
        | .error fault => .error fault
        | .ok rest => skipString rest
      else if b < 0x20 then .error .malformed
      else skipString rest
termination_by bytes => bytes.length
decreasing_by
  · exact Nat.lt_succ_of_lt (length_lt_of_skipEscape ‹_›)
  · exact Nat.lt_succ_self _

theorem length_lt_of_skipString {bytes rest : List UInt8} (h : skipString bytes = .ok rest) :
    rest.length < bytes.length := by
  fun_induction skipString bytes with
  | case1 => cases h
  | case2 => cases h; exact Nat.lt_succ_self _
  | case3 => cases h
  | case4 tail next read _ ih =>
      have := ih h
      have := length_lt_of_skipEscape read
      simp only [List.length_cons]; omega
  | case5 => cases h
  | case6 b tail _ _ _ ih => exact Nat.lt_succ_of_lt (ih h)

/-- The key of a member: a string, after blanks. -/
def key (bytes : List UInt8) : Except Fault (String × List UInt8) :=
  match mark (ascii '"') bytes with
  | .error fault => .error fault
  | .ok rest => stringBody rest

theorem length_lt_of_key {bytes rest : List UInt8} {s : String} (h : key bytes = .ok (s, rest)) :
    rest.length < bytes.length := by
  unfold key at h
  split at h
  · cases h
  · exact Nat.lt_trans (length_lt_of_stringBody h) (length_lt_of_mark ‹_›)

end NodeInventory.Json
