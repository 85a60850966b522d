import NodeInventory.Proofs.Text.Cutting

/-!
# Text in lower case

Only the capitals of ASCII change, and each becomes its small letter: so a text in lower case stays
as it is, and has its blanks and its dashes where it had them before.
-/

namespace NodeInventory.Text

/-! ## Characters -/

/-- A capital of ASCII and its small letter. -/
def IsCapitalOf (c d : Char) : Prop :=
  'A'.toNat ≤ c.toNat ∧ c.toNat ≤ 'Z'.toNat ∧ d.toNat = c.toNat + 32

theorem isUpper_iff {c : Char} :
    c.isUpper = true ↔ 'A'.toNat ≤ c.toNat ∧ c.toNat ≤ 'Z'.toNat := decide_eq_true_iff

theorem toLower_eq_self {c : Char} (small : c.isUpper = false) : c.toLower = c :=
  dif_neg fun capital => absurd (isUpper_iff.2 capital) (ne_true_of_eq_false small)

theorem isCapitalOf_toLower {c : Char} (capital : c.isUpper = true) :
    IsCapitalOf c c.toLower := by
  obtain ⟨low, high⟩ := isUpper_iff.1 capital
  refine ⟨low, high, ?_⟩
  have range : c.val ≥ 'A'.val ∧ c.val ≤ 'Z'.val := ⟨low, high⟩
  have lowered : c.toLower.val = c.val + 32 := congrArg Char.val (dif_pos range)
  have small : c.toNat ≤ 90 := high
  rw [Char.toNat, lowered, UInt32.toNat_add]
  exact Nat.mod_eq_of_lt (by change c.toNat + 32 < _; omega)

theorem eq_toLower_or_isCapitalOf (c : Char) : c = c.toLower ∨ IsCapitalOf c c.toLower := by
  cases capital : c.isUpper with
  | true => exact .inr (isCapitalOf_toLower capital)
  | false => exact .inl (toLower_eq_self capital).symm

theorem isCapitalOf_iff {c d : Char} : IsCapitalOf c d ↔ c.isUpper = true ∧ c.toLower = d := by
  rw [IsCapitalOf, ← and_assoc, ← isUpper_iff]
  refine and_congr_right fun capital => ?_
  rw [← (isCapitalOf_toLower capital).2.2, Char.toNat_inj]
  exact eq_comm

namespace IsCapitalOf

variable {c c' d : Char} (letters : IsCapitalOf c d)

include letters

/-- A small letter has one capital. -/
theorem unique (letters' : IsCapitalOf c' d) : c = c' := by
  have codes : c.toNat + 32 = c'.toNat + 32 := letters.2.2.symm.trans letters'.2.2
  exact Char.toNat_inj.1 (Nat.add_right_cancel codes)

theorem codes : (65 ≤ c.toNat ∧ c.toNat ≤ 90) ∧ 97 ≤ d.toNat ∧ d.toNat ≤ 122 := by
  obtain ⟨low, high, eq⟩ := letters
  have range : 65 ≤ c.toNat ∧ c.toNat ≤ 90 := ⟨low, high⟩
  omega

theorem isUpper_eq_false : d.isUpper = false := by
  refine eq_false_of_ne_true fun capital => ?_
  have range : d.toNat ≤ 90 := (isUpper_iff.1 capital).2
  have := letters.codes
  omega

theorem isBlank_eq : isBlank d = isBlank c := by
  have solid {c : Char} (low : 65 ≤ c.toNat) (high : c.toNat ≤ 122) : isBlank c = false := by
    simp only [isBlank, blankRanges, List.any_cons, List.any_nil, Bool.or_false,
      Bool.or_eq_false_iff, Bool.and_eq_false_iff, decide_eq_false_iff_not]
    omega
  have := letters.codes
  rw [solid (c := c) (by omega) (by omega), solid (c := d) (by omega) (by omega)]

theorem ne_dash : d ≠ '-' := by
  rintro rfl
  exact absurd letters.codes.2.1 (by decide)

end IsCapitalOf

theorem isUpper_toLower (c : Char) : c.toLower.isUpper = false := by
  cases capital : c.isUpper with
  | true => exact (isCapitalOf_toLower capital).isUpper_eq_false
  | false => rwa [toLower_eq_self capital]

theorem isBlank_toLower (c : Char) : isBlank c.toLower = isBlank c := by
  rcases eq_toLower_or_isCapitalOf c with same | letters
  · rw [← same]
  · exact letters.isBlank_eq

/-! ## Texts -/

theorem lower_eq_self_iff {s : List Char} : lower s = s ↔ ∀ c ∈ s, c.isUpper = false := by
  constructor
  · intro same c mem
    rw [← same] at mem
    obtain ⟨d, -, rfl⟩ := List.mem_map.1 mem
    exact isUpper_toLower d
  · intro small
    exact (List.map_congr_left fun c mem => toLower_eq_self (small c mem)).trans (List.map_id s)

theorem lower_ne_nil {s : List Char} (ne : s ≠ []) : lower s ≠ [] := mt List.map_eq_nil_iff.1 ne

end NodeInventory.Text
