import NodeInventory.Proofs.Text.Pieces
import NodeInventory.Proofs.Text.Utf8

/-!
# Decoding with replacement characters

An ASCII byte breaks off whatever stands before it: it belongs neither to a longer character nor to
an invalid run.  So it makes no difference whether bytes are cut at line breaks before they are
decoded or afterwards (`split_decodeLossy`).
-/

namespace NodeInventory.Text.Utf8

/-! ## Bytes in front of an ASCII byte -/

theorem low_of_lead {n : Nat} {lead : Lead} (announced : Lead.of? n = some lead) :
    0x80 ≤ lead.low := by
  rcases lead_cases announced with ⟨-, rfl⟩ | ⟨m, -, -, -, rfl⟩ | ⟨m, -, -, rfl⟩ |
    ⟨m, -, -, rfl⟩ <;> dsimp only
  all_goals first | exact Nat.le_refl _ | (split <;> decide)

section Ascii

variable {b : UInt8}

/-- A character that is not complete stops in front of an ASCII byte, as it does at the end. -/
theorem rest_append_ascii (ascii : b.toNat < 0x80) {low high more code : Nat} (ge : 0x80 ≤ low)
    (bytes tail : List UInt8) :
    rest low high more code (bytes ++ b :: tail) =
      ((rest low high more code bytes).1, (rest low high more code bytes).2 ++ b :: tail) := by
  induction more generalizing low high code bytes with
  | zero => rfl
  | succ more ih =>
      cases bytes with
      | nil =>
          have outside : ¬(low ≤ b.toNat ∧ b.toNat ≤ high) := by omega
          show rest low high (more + 1) code (b :: tail) = (none, b :: tail)
          rw [rest, if_neg outside]
      | cons d bytes =>
          rw [List.cons_append, rest, rest]
          split
          next => exact ih (Nat.le_refl _) bytes
          next => rfl

theorem next_append_ascii (ascii : b.toNat < 0x80) (d : UInt8) (bytes tail : List UInt8) :
    next d (bytes ++ b :: tail) = ((next d bytes).1, (next d bytes).2 ++ b :: tail) := by
  rw [next, next]
  split
  next => rfl
  next lead announced => rw [rest_append_ascii ascii (low_of_lead announced)]

theorem units_append_ascii (ascii : b.toNat < 0x80) (bytes tail : List UInt8) :
    units (bytes ++ b :: tail) = units bytes ++ units (b :: tail) := by
  fun_induction units bytes with
  | case1 => rfl
  | case2 d bytes ih =>
      rw [List.cons_append, units, next_append_ascii ascii, ih]
      rfl

/-- An ASCII byte is a character, and starts anew what is behind it. -/
theorem decodeLossy_append_ascii (ascii : b.toNat < 0x80) (bytes tail : List UInt8) :
    decodeLossy (bytes ++ b :: tail) =
      decodeLossy bytes ++ Char.ofNat b.toNat :: decodeLossy tail := by
  have lead : Lead.of? b.toNat = some ⟨0, 0x80, 0xBF, b.toNat⟩ := by rw [Lead.of?, if_pos ascii]
  have first : units (b :: tail) = some (Char.ofNat b.toNat) :: units tail := by
    rw [units, next, lead]
    rfl
  rw [decodeLossy, units_append_ascii ascii, first, List.map_append]
  rfl

end Ascii

/-! ## Where the ASCII characters come from -/

theorem rest_isSuffix (low high more code : Nat) (bytes : List UInt8) :
    (rest low high more code bytes).2 <:+ bytes := by
  induction more generalizing low high code bytes with
  | zero => exact List.suffix_refl bytes
  | succ more ih =>
      cases bytes with
      | nil => exact List.suffix_refl []
      | cons b bytes =>
          rw [rest]
          split
          next => exact (ih ..).trans (List.suffix_cons b bytes)
          next => exact List.suffix_refl _

theorem next_isSuffix (b : UInt8) (bytes : List UInt8) : (next b bytes).2 <:+ bytes := by
  rw [next]
  split
  next => exact List.suffix_refl bytes
  next => exact rest_isSuffix ..

/-- An ASCII character is read off the one byte that has its code. -/
theorem eq_of_next {c : Char} (ascii : c.toNat < 0x80) {b : UInt8} {bytes : List UInt8}
    (read : (next b bytes).1 = some c) : b = UInt8.ofNat c.toNat := by
  have whole : b :: bytes = String.utf8EncodeChar c ++ (next b bytes).2 :=
    next_eq_some (Prod.ext read rfl)
  rcases utf8EncodeChar_cases c with ⟨-, eq⟩ | ⟨ge, -⟩ | ⟨ge, -⟩ | ⟨ge, -⟩
  · rw [eq] at whole
    exact (List.cons.inj whole).1
  all_goals omega

theorem mem_of_mem_decodeLossy {c : Char} (ascii : c.toNat < 0x80) {bytes : List UInt8}
    (mem : c ∈ decodeLossy bytes) : UInt8.ofNat c.toNat ∈ bytes := by
  rw [decodeLossy] at mem
  fun_induction units bytes with
  | case1 => cases mem
  | case2 b bytes ih =>
      rcases List.mem_cons.1 mem with here | later
      · cases read : (next b bytes).1 with
        | none =>
            -- the replacement character is none of ASCII
            rw [read] at here
            rw [here] at ascii
            exact absurd ascii (by decide)
        | some d =>
            rw [read] at here
            cases here
            rw [← eq_of_next ascii read]
            exact List.mem_cons_self
      · exact List.mem_cons_of_mem b ((next_isSuffix b bytes).subset (ih later))

/-! ## Lines of bytes -/

/-- A newline or a carriage return, as a byte. -/
def isBreakByte (b : UInt8) : Bool := b == 0x0A || b == 0x0D

theorem isBreakByte_cases {b : UInt8} (cut : isBreakByte b = true) : b = 0x0A ∨ b = 0x0D := by
  simpa [isBreakByte] using cut

/-- Bytes without line breaks have none when they are decoded. -/
theorem unbroken_decodeLossy {bytes : List UInt8} (unbroken : ∀ b ∈ bytes, isBreakByte b = false) :
    ∀ c ∈ decodeLossy bytes, isLineBreak c = false := by
  intro c mem
  refine eq_false_of_ne_true fun cut => ?_
  rw [isLineBreak, Bool.or_eq_true, beq_iff_eq, beq_iff_eq] at cut
  rcases cut with rfl | rfl
  all_goals
    have cut_byte := unbroken _ (mem_of_mem_decodeLossy (by decide) mem)
    cases cut_byte

/-- The lines of a decoded text are the lines of the bytes, each decoded for itself. -/
theorem split_decodeLossy (bytes : List UInt8) :
    split isLineBreak (decodeLossy bytes) = (split isBreakByte bytes).map decodeLossy := by
  induction bytes using cut_induction (p := isBreakByte) with
  | free bytes unbroken =>
      rw [split_eq_singleton unbroken, split_eq_singleton (unbroken_decodeLossy unbroken)]
      rfl
  | cut first b rest unbroken cut ih =>
      have ascii : b.toNat < 0x80 := by rcases isBreakByte_cases cut with rfl | rfl <;> decide
      have cut_char : isLineBreak (Char.ofNat b.toNat) = true := by
        rcases isBreakByte_cases cut with rfl | rfl <;> decide
      rw [decodeLossy_append_ascii ascii,
        split_append_cons (unbroken_decodeLossy unbroken) cut_char, ih,
        split_append_cons unbroken cut, List.map_cons]

/-- Neither the character that breaks off nor the one that lacks its start touches the newline. -/
example : decodeLossy [0xE2, 0x82, 0x0A, 0xAC] = "\uFFFD\n\uFFFD".toList := by decide +kernel

end NodeInventory.Text.Utf8
