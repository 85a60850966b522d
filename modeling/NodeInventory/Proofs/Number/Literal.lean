import NodeInventory.Number.Literal

/-!
# Whole numbers in texts

A text spells a whole number in decimal digits, with a plus sign or none.  The numbers that
`natural?` reads are those that are spelled and lie within the bound, and the digits of a number
spell it.
-/

namespace NodeInventory.Number

/-- Decimal digits, maybe none, and the number that they make. -/
structure Digits (n : Nat) (digits : List Char) : Prop where
  digit : ∀ c ∈ digits, c.isDigit = true
  value : Nat.ofDigitChars 10 digits 0 = n

/-- A whole number in digits, behind a plus sign or without one. -/
def SpellsNatural (n : Nat) (text : List Char) : Prop :=
  ∃ digits, (text = digits ∨ text = '+' :: digits) ∧ digits ≠ [] ∧ Digits n digits

theorem valueOf_eq (digits : List Char) : valueOf digits = Nat.ofDigitChars 10 digits 0 := by
  rw [Nat.ofDigitChars_eq_foldl]
  simp only [Nat.mul_comm 10]
  rfl

theorem digits_iff {n : Nat} {digits : List Char} :
    Digits n digits ↔ digits.all isDigit = true ∧ valueOf digits = n := by
  rw [List.all_eq_true, valueOf_eq]
  exact ⟨fun ⟨digit, value⟩ => ⟨digit, value⟩, fun ⟨digit, value⟩ => ⟨digit, value⟩⟩

/-- Digits start with no sign. -/
theorem Digits.bare {n : Nat} {digits : List Char} (all : Digits n digits) :
    ∀ c ∈ digits.head?, c ≠ '-' ∧ c ≠ '+' := by
  intro c mem
  have digit := all.digit c (List.mem_of_mem_head? mem)
  constructor <;> rintro rfl <;> exact absurd digit (by decide)

section Natural

variable {bound n : Nat} {text : List Char}

/-- What is read behind a sign. -/
theorem ite_valueOf_eq_some_iff {digits : List Char} :
    (if digits ≠ [] ∧ digits.all isDigit ∧ valueOf digits ≤ bound then some (valueOf digits)
      else none) = some n ↔ (digits ≠ [] ∧ Digits n digits) ∧ n ≤ bound := by
  rw [digits_iff]
  split
  next fits =>
    constructor
    · rintro ⟨⟩
      exact ⟨⟨fits.1, fits.2.1, rfl⟩, fits.2.2⟩
    · rintro ⟨⟨-, -, rfl⟩, -⟩
      rfl
  next misfits =>
    refine iff_of_false (Option.some_ne_none n).symm ?_
    rintro ⟨⟨ne, all, rfl⟩, le⟩
    exact misfits ⟨ne, all, le⟩

theorem natural?_plus_eq_some_iff {digits : List Char} :
    natural? bound ('+' :: digits) = some n ↔ (digits ≠ [] ∧ Digits n digits) ∧ n ≤ bound :=
  ite_valueOf_eq_some_iff

theorem natural?_unsigned_eq_some_iff (unsigned : text.head? ≠ some '+') :
    natural? bound text = some n ↔ (text ≠ [] ∧ Digits n text) ∧ n ≤ bound := by
  rw [← ite_valueOf_eq_some_iff]
  unfold natural?
  dsimp only
  split
  next => exact absurd rfl unsigned
  next => exact Iff.rfl

theorem natural?_eq_some_iff :
    natural? bound text = some n ↔ SpellsNatural n text ∧ n ≤ bound := by
  constructor
  · intro read
    by_cases plus : text.head? = some '+'
    · obtain ⟨rest, rfl⟩ := List.head?_eq_some_iff.1 plus
      obtain ⟨digits, le⟩ := natural?_plus_eq_some_iff.1 read
      exact ⟨⟨rest, .inr rfl, digits⟩, le⟩
    · obtain ⟨digits, le⟩ := (natural?_unsigned_eq_some_iff plus).1 read
      exact ⟨⟨text, .inl rfl, digits⟩, le⟩
  · rintro ⟨⟨digits, rfl | rfl, fits⟩, le⟩
    · have unsigned : text.head? ≠ some '+' := fun plus => (fits.2.bare '+' plus).2 rfl
      exact (natural?_unsigned_eq_some_iff unsigned).2 ⟨fits, le⟩
    · exact natural?_plus_eq_some_iff.2 ⟨fits, le⟩

end Natural

/-- The digits of a number spell it. -/
theorem spellsNatural_toString (n : Nat) : SpellsNatural n (toString n).toList := by
  have digits : (toString n).toList = Nat.toDigits 10 n := by
    rw [Nat.toString_eq_ofList_toDigits, String.toList_ofList]
  refine ⟨_, .inl digits, Nat.toDigits_ne_nil, fun c mem => ?_, Nat.ofDigitChars_ten_toDigits⟩
  exact Nat.isDigit_of_mem_toDigits (by decide) (by decide) mem

end NodeInventory.Number
