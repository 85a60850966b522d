import NodeInventory.Node
import NodeInventory.Proofs.Text.Case

/-!
# Hardware addresses in normal form

The normal form of a hardware address is one, so that normalising it again changes nothing; and
those are all the addresses that normalising does not change.
-/

namespace NodeInventory

open Text

/-- An address without dashes, capitals and blanks around it. -/
structure IsNormalMac (mac : String) : Prop where
  trimmed : trim mac.toList = mac.toList
  no_dash : '-' ∉ mac.toList
  no_capital : ∀ c ∈ mac.toList, c.isUpper = false

/-- What stands for a character in a normal form. -/
def macChar (c : Char) : Char := (if c = '-' then ':' else c).toLower

theorem toList_normalizeMac (mac : String) :
    (normalizeMac mac).toList = (trim mac.toList).map macChar := by
  rw [normalizeMac, String.toList_ofList, lower, List.map_map]
  rfl

theorem isBlank_macChar (c : Char) : isBlank (macChar c) = isBlank c := by
  rw [macChar, isBlank_toLower]
  split
  next dash => rw [dash]; rfl
  next => rfl

theorem isUpper_macChar (c : Char) : (macChar c).isUpper = false := isUpper_toLower _

theorem macChar_ne_dash (c : Char) : macChar c ≠ '-' := by
  rw [macChar]
  split
  next => decide
  next other =>
    rcases eq_toLower_or_isCapitalOf c with same | letters
    · rwa [← same]
    · exact letters.ne_dash

theorem macChar_of_small {c : Char} (other : c ≠ '-') (small : c.isUpper = false) :
    macChar c = c := by
  rw [macChar, if_neg other, toLower_eq_self small]

theorem isNormalMac_normalizeMac (mac : String) : IsNormalMac (normalizeMac mac) := by
  have chars := toList_normalizeMac mac
  constructor
  case trimmed =>
    rw [chars, trim, strip_map isBlank_macChar, trim, strip_strip]
  case no_dash =>
    rw [chars]
    intro mem
    obtain ⟨c, -, eq⟩ := List.mem_map.1 mem
    exact macChar_ne_dash c eq
  case no_capital =>
    rw [chars]
    intro d mem
    obtain ⟨c, -, rfl⟩ := List.mem_map.1 mem
    exact isUpper_macChar c

theorem normalizeMac_eq_self_iff {mac : String} : normalizeMac mac = mac ↔ IsNormalMac mac := by
  constructor
  · intro same
    exact same ▸ isNormalMac_normalizeMac mac
  · rintro ⟨trimmed, no_dash, no_capital⟩
    refine String.toList_injective ?_
    rw [toList_normalizeMac, trimmed]
    refine (List.map_congr_left fun c mem => ?_).trans (List.map_id _)
    exact macChar_of_small (fun dash => no_dash (dash ▸ mem)) (no_capital c mem)

@[simp] theorem normalizeMac_normalizeMac (mac : String) :
    normalizeMac (normalizeMac mac) = normalizeMac mac :=
  normalizeMac_eq_self_iff.2 (isNormalMac_normalizeMac mac)

/-- Only an address of blanks has an empty normal form. -/
theorem normalizeMac_eq_empty_iff {mac : String} :
    normalizeMac mac = "" ↔ IsBlankText mac.toList := by
  rw [← String.toList_inj, toList_normalizeMac, ← trim_eq_nil_iff]
  exact List.map_eq_nil_iff

end NodeInventory
