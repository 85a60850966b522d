import Mathlib.Data.List.Forall2
import NodeInventory.Json.Printer
import NodeInventory.Proofs.Json.Spelling
import NodeInventory.Proofs.Text.Utf8

/-!
# Printed values

Both printers spell the value that they print, where they do so with its parts.
-/

namespace NodeInventory.Json

open Text.Utf8

/-! ## Strings -/

/-- The escape of a control character names it. -/
theorem hexValue?_hexChar : ∀ n < 0x20,
    hexValue? (encode ['0', '0', hexChar (n / 16), hexChar (n % 16)]) = some n ∧
      (encode ['0', '0', hexChar (n / 16), hexChar (n % 16)]).length = 4 := by
  decide

theorem spellsChar_escapeChar (c : Char) : SpellsChar c (encode (escapeChar c)) := by
  unfold escapeChar
  split
  next eq => rw [eq]; exact .letter (by decide)
  next no_quote =>
  split
  next eq => rw [eq]; exact .letter (by decide)
  next no_backslash =>
  split
  next eq => rw [eq]; exact .letter (by decide)
  split
  next eq => rw [eq]; exact .letter (by decide)
  split
  next eq => rw [eq]; exact .letter (by decide)
  split
  next eq => rw [eq]; exact .letter (by decide)
  split
  next eq => rw [eq]; exact .letter (by decide)
  split
  next control =>
    obtain ⟨value, four⟩ := hexValue?_hexChar c.toNat control
    exact .unit four value
  next printable =>
    rw [encode_cons, encode_nil, List.append_nil]
    exact .raw (Nat.le_of_not_lt printable) no_quote no_backslash

theorem spellsChars_escape (s : List Char) : SpellsChars s (encode (s.flatMap escapeChar)) := by
  induction s with
  | nil => exact .nil
  | cons c s ih =>
      rw [List.flatMap_cons, encode_append]
      exact .cons (spellsChar_escapeChar c) ih

theorem spellsString_quote (s : String) : SpellsString s (encode (quote s.toList)) := by
  rw [quote, encode_cons, encode_append]
  exact .quoted (spellsChars_escape s.toList)

/-! ## Numbers -/

/-- A decimal digit is written as one byte. -/
theorem ascii_digitChar : ∀ d < 10, isDigit (ascii (Nat.digitChar d)) = true ∧
    encode (charsOf [ascii (Nat.digitChar d)]) = [ascii (Nat.digitChar d)] ∧
    (ascii (Nat.digitChar d) = ascii '0' → d = 0) := by
  decide

theorem whole_ofNat_of_lt {n : Nat} (lt : n < 10) :
    (Numeral.ofNat n).whole = [ascii (Nat.digitChar n)] := by
  rw [Numeral.ofNat, Nat.toDigits_of_lt_base lt]
  rfl

theorem whole_ofNat_of_le {n : Nat} (le : 10 ≤ n) :
    (Numeral.ofNat n).whole =
      (Numeral.ofNat (n / 10)).whole ++ [ascii (Nat.digitChar (n % 10))] := by
  rw [Numeral.ofNat, Nat.toDigits_of_base_le (by decide) le, List.map_append]
  rfl

/-- The digits of a number are some, and a zero leads those of zero only. -/
theorem head_ofNat (n : Nat) : (Numeral.ofNat n).whole ≠ [] ∧
    ((Numeral.ofNat n).whole.head? = some (ascii '0') → n = 0) := by
  induction n using Nat.strongRecOn with
  | ind n ih =>
      rcases Nat.lt_or_ge n 10 with lt | le
      · rw [whole_ofNat_of_lt lt]
        exact ⟨List.cons_ne_nil _ _, fun head => (ascii_digitChar n lt).2.2 (Option.some.inj head)⟩
      · obtain ⟨nonempty, leading⟩ := ih (n / 10) (by omega)
        rw [whole_ofNat_of_le le, List.head?_append_of_ne_nil _ nonempty]
        refine ⟨List.append_ne_nil_of_left_ne_nil nonempty _, fun head => ?_⟩
        have := leading head
        omega

theorem digits_ofNat (n : Nat) : (∀ b ∈ (Numeral.ofNat n).whole, isDigit b = true) ∧
    encode (Numeral.ofNat n).chars = (Numeral.ofNat n).whole := by
  have chars (n : Nat) : (Numeral.ofNat n).chars = charsOf (Numeral.ofNat n).whole := by
    simp [Numeral.chars, Numeral.ofNat]
  rw [chars]
  induction n using Nat.strongRecOn with
  | ind n ih =>
      rcases Nat.lt_or_ge n 10 with lt | le
      · obtain ⟨digit, written, -⟩ := ascii_digitChar n lt
        rw [whole_ofNat_of_lt lt]
        exact ⟨fun b mem => List.mem_singleton.1 mem ▸ digit, written⟩
      · obtain ⟨digits, bytes⟩ := ih (n / 10) (by omega)
        obtain ⟨digit, written, -⟩ := ascii_digitChar (n % 10) (Nat.mod_lt n (by decide))
        rw [whole_ofNat_of_le le, charsOf, List.map_append, encode_append]
        refine ⟨fun b mem => ?_, congrArg₂ (· ++ ·) bytes written⟩
        rcases List.mem_append.1 mem with mem | mem
        · exact digits b mem
        · exact List.mem_singleton.1 mem ▸ digit

theorem spellsNumeral_octet (n : UInt8) :
    SpellsNumeral (.ofNat n.toNat) (encode (Numeral.ofNat n.toNat).chars) := by
  obtain ⟨nonempty, zero⟩ := head_ofNat n.toNat
  obtain ⟨digit, chars⟩ := digits_ofNat n.toNat
  have leading (head : (Numeral.ofNat n.toNat).whole.head? = some (ascii '0')) :
      (Numeral.ofNat n.toNat).whole = [ascii '0'] := by
    rw [zero head]
    rfl
  have spelled : SpellsNumeral (.ofNat n.toNat)
      ([] ++ ((Numeral.ofNat n.toNat).whole ++ ([] ++ []))) :=
    .parts ⟨nonempty, digit⟩ leading .none .none
  rw [List.append_nil, List.append_nil, List.nil_append] at spelled
  rw [chars]
  exact spelled

/-! ## Brackets -/

/-- The blanks of JSON as characters. -/
def BlankChar (c : Char) : Prop := c = ' ' ∨ c = '\t' ∨ c = '\n' ∨ c = '\r'

theorem blanks_char_iff {c : Char} : Blanks (String.utf8EncodeChar c) ↔ BlankChar c := by
  constructor
  · intro blanks
    obtain ⟨b, more, bytes, -, -⟩ := utf8EncodeChar_eq_cons c
    have mem : b ∈ String.utf8EncodeChar c := bytes ▸ List.mem_cons_self
    have blank := blanks b mem
    simp only [isBlank, Bool.or_eq_true, decide_eq_true_eq] at blank
    -- the first byte of a character is ASCII only where it is all of it
    rcases mem_utf8EncodeChar mem with same | ge
    · rcases blank with ((rfl | rfl) | rfl) | rfl
      · exact .inl (Char.toNat_inj.1 same.symm)
      · exact .inr (.inl (Char.toNat_inj.1 same.symm))
      · exact .inr (.inr (.inl (Char.toNat_inj.1 same.symm)))
      · exact .inr (.inr (.inr (Char.toNat_inj.1 same.symm)))
    · rcases blank with ((rfl | rfl) | rfl) | rfl <;> exact absurd ge (by decide)
  · rintro (rfl | rfl | rfl | rfl) b mem <;> cases List.mem_singleton.1 mem <;> decide

theorem blanks_encode_iff {s : List Char} : Blanks (encode s) ↔ ∀ c ∈ s, BlankChar c := by
  simp only [← blanks_char_iff, Blanks, encode, List.mem_flatMap]
  constructor
  · intro blanks c mem b byte
    exact blanks b ⟨c, mem, byte⟩
  · rintro blanks b ⟨c, mem, byte⟩
    exact blanks c mem b byte

theorem blanks_newline (depth : Nat) : Blanks (encode (newline depth)) := by
  refine blanks_encode_iff.2 fun c mem => ?_
  rw [newline, List.mem_cons, List.mem_replicate] at mem
  rcases mem with rfl | ⟨-, rfl⟩
  · exact .inr (.inr (.inl rfl))
  · exact .inl rfl

theorem joined_cons (between piece : List Char) (pieces : List (List Char)) :
    joined between (piece :: pieces) = piece ++ pieces.flatMap (between ++ ·) := by
  induction pieces generalizing piece with
  | nil => rw [joined, List.intercalate_singleton, List.flatMap_nil, List.append_nil]
  | cons next pieces ih =>
      rw [joined, List.intercalate_cons_cons, ← joined, ih, List.flatMap_cons]
      simp only [List.append_assoc]

/-- A piece that spells a part. -/
def Prints (part : Part) (piece : List Char) : Prop := Spells (.part part) (encode piece)

section Joined

variable {bracket : Bracket} {parts : List Part} {pieces : List (List Char)} {between : List Char}
variable {after : List UInt8}

theorem spells_pieces (prints : List.Forall₂ Prints parts pieces) (apart : Blanks (encode between))
    (behind : Blanks after) :
    Spells (.rest bracket true parts)
      (encode (pieces.flatMap (',' :: between ++ ·)) ++ (after ++ [bracket.close])) := by
  induction prints with
  | nil => exact .close behind
  | @cons part piece parts pieces printed _ ih =>
      rw [List.flatMap_cons, encode_append, encode_append, List.append_assoc, List.append_assoc]
      exact .next blanks_nil apart printed ih

variable (between)

/-- Pieces between brackets, with nothing but blanks around them and between them. -/
theorem spells_joined (prints : List.Forall₂ Prints parts pieces) {before : List UInt8}
    (front : Blanks before) (apart : Blanks (encode between)) (behind : Blanks after) :
    Spells (.rest bracket false parts)
      (before ++ (encode (joined (',' :: between) pieces) ++ (after ++ [bracket.close]))) := by
  cases prints with
  | nil =>
      show Spells _ (before ++ ([] ++ (after ++ [bracket.close])))
      rw [List.nil_append, ← List.append_assoc]
      exact .close (blanks_append front behind)
  | cons printed rest =>
      rw [joined_cons, encode_append, List.append_assoc]
      exact .first front printed (spells_pieces rest apart behind)

end Joined

/-! ## Values -/

/-- Both printers spell the value. -/
structure Printed (v : Json) : Prop where
  compact : Prints (.value v) v.compact
  indented : ∀ depth, Prints (.value v) (v.indented depth)

/-- A value without parts is printed as a scalar. -/
theorem printed_ofScalar {s : Scalar} (spelled : SpellsScalar s (encode (scalarChars s))) :
    Printed (ofScalar s) where
  compact := by
    refine .scalar rfl ?_
    cases s <;> exact spelled
  indented depth := by
    refine .scalar rfl ?_
    cases s <;> exact spelled

theorem printed_string (s : String) : Printed (.string s) :=
  printed_ofScalar (.string (spellsString_quote s))

theorem printed_bool (b : Bool) : Printed (.bool b) := by
  cases b with
  | true => exact printed_ofScalar .true
  | false => exact printed_ofScalar .false

theorem printed_octet (n : UInt8) : Printed (.number (.ofNat n.toNat)) :=
  printed_ofScalar (.number (spellsNumeral_octet n))

theorem compactItems_eq (items : List Json) : compactItems items = items.map compact := by
  induction items with
  | nil => rfl
  | cons item items ih => rw [compactItems, ih, List.map_cons]

theorem indentedItems_eq (depth : Nat) (items : List Json) :
    indentedItems depth items = items.map (indented depth) := by
  induction items with
  | nil => rfl
  | cons item items ih => rw [indentedItems, ih, List.map_cons]

theorem compactMembers_eq (members : List (String × Json)) :
    compactMembers members = members.map fun m => quote m.1.toList ++ ':' :: m.2.compact := by
  induction members with
  | nil => rfl
  | cons member members ih => rw [compactMembers, ih, List.map_cons]

theorem indentedMembers_eq (depth : Nat) (members : List (String × Json)) :
    indentedMembers depth members =
      members.map fun m => quote m.1.toList ++ ':' :: ' ' :: m.2.indented depth := by
  induction members with
  | nil => rfl
  | cons member members ih => rw [indentedMembers, ih, List.map_cons]

theorem spells_block (opening closing : Char) (depth : Nat) (bracket : Bracket)
    {parts : List Part} {pieces : List (List Char)} (closes : encode [closing] = [bracket.close])
    (prints : List.Forall₂ Prints parts pieces) :
    ∃ inner, block opening closing depth pieces = opening :: inner ∧
      Spells (.rest bracket false parts) (encode inner) := by
  unfold block
  split
  next none =>
    subst none
    cases prints
    refine ⟨[closing], rfl, ?_⟩
    rw [closes]
    exact .close blanks_nil
  next some =>
    refine ⟨_, rfl, ?_⟩
    rw [encode_append, encode_append, encode_append, closes, List.append_assoc, List.append_assoc]
    exact spells_joined _ prints (blanks_newline _) (blanks_newline _) (blanks_newline _)

theorem printed_array {items : List Json} (printed : ∀ v ∈ items, Printed v) :
    Printed (.array items) where
  compact := by
    have prints : List.Forall₂ Prints (items.map .value) (compactItems items) := by
      rw [compactItems_eq, List.forall₂_map_left_iff, List.forall₂_map_right_iff,
        List.forall₂_same]
      exact fun v mem => (printed v mem).compact
    have inner : Spells (.rest .array false (items.map .value))
        (encode (joined [','] (compactItems items)) ++ [ascii ']']) :=
      spells_joined [] prints blanks_nil blanks_nil blanks_nil
    rw [Prints, Json.compact, encode_cons, encode_append]
    exact .array inner
  indented depth := by
    have prints : List.Forall₂ Prints (items.map .value) (indentedItems (depth + 1) items) := by
      rw [indentedItems_eq, List.forall₂_map_left_iff, List.forall₂_map_right_iff,
        List.forall₂_same]
      exact fun v mem => (printed v mem).indented (depth + 1)
    obtain ⟨inner, text, spelled⟩ := spells_block '[' ']' depth .array rfl prints
    rw [Prints, Json.indented, text, encode_cons]
    exact .array spelled

theorem printed_object {members : List (String × Json)} (printed : ∀ m ∈ members, Printed m.2) :
    Printed (.object members) where
  compact := by
    have prints : List.Forall₂ Prints (members.map fun m => .member m.1 m.2)
        (compactMembers members) := by
      rw [compactMembers_eq, List.forall₂_map_left_iff, List.forall₂_map_right_iff,
        List.forall₂_same]
      intro m mem
      rw [Prints, encode_append]
      exact .member (spellsString_quote m.1) blanks_nil blanks_nil (printed m mem).compact
    have inner : Spells (.rest .object false (members.map fun m => .member m.1 m.2))
        (encode (joined [','] (compactMembers members)) ++ [ascii '}']) :=
      spells_joined [] prints blanks_nil blanks_nil blanks_nil
    rw [Prints, Json.compact, encode_cons, encode_append]
    exact .object inner
  indented depth := by
    have prints : List.Forall₂ Prints (members.map fun m => .member m.1 m.2)
        (indentedMembers (depth + 1) members) := by
      rw [indentedMembers_eq, List.forall₂_map_left_iff, List.forall₂_map_right_iff,
        List.forall₂_same]
      intro m mem
      have space : Blanks (encode [' ']) :=
        blanks_encode_iff.2 fun c mem => .inl (List.mem_singleton.1 mem)
      have spelled := Spells.member (spellsString_quote m.1) blanks_nil space
        ((printed m mem).indented (depth + 1))
      rw [Prints, encode_append]
      exact spelled
    obtain ⟨inner, text, spelled⟩ := spells_block '{' '}' depth .object rfl prints
    rw [Prints, Json.indented, text, encode_cons]
    exact .object spelled

end NodeInventory.Json
