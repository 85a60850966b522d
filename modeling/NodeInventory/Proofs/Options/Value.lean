import NodeInventory.Options
import NodeInventory.Proofs.Number.Reading

/-!
# Values of settings

What the text of a setting spells: a number of 32 or 64 bits, a floating point number, or itself.
The settings read what is spelled, and nothing else.
-/

namespace NodeInventory

open Number

/-- A number of 32 bits; a minus sign may stand before zeros. -/
def SpellsWord32 (n : UInt32) (text : List Char) : Prop :=
  SpellsNatural n.toNat text ∨
    n = 0 ∧ ∃ zeros, text = '-' :: zeros ∧ zeros ≠ [] ∧ ∀ c ∈ zeros, c = '0'

def SpellsWord64 (n : Nat) (text : List Char) : Prop := SpellsNatural n text ∧ n < UInt64.size

namespace Given

theorem word64?_eq_some_iff {text : List Char} {n : Nat} :
    word64? text = some n ↔ SpellsWord64 n text :=
  natural?_eq_some_iff.trans
    (and_congr_right fun _ => Nat.le_sub_one_iff_lt (by decide))

theorem not_spellsNatural_minus {n : Nat} {rest : List Char} : ¬SpellsNatural n ('-' :: rest) := by
  rintro ⟨digits, rfl | plus, -, all⟩
  · exact absurd (all.digit '-' List.mem_cons_self) (by decide)
  · cases plus

theorem word32?_eq_some_iff {text : List Char} {n : UInt32} :
    word32? text = some n ↔ SpellsWord32 n text := by
  by_cases minus : text.head? = some '-'
  · obtain ⟨zeros, rfl⟩ := List.head?_eq_some_iff.1 minus
    rw [SpellsWord32, or_iff_right not_spellsNatural_minus, word32?]
    split
    next zero =>
      obtain ⟨ne, all⟩ := zero
      simp only [List.all_eq_true, beq_iff_eq] at all
      rw [Option.some_inj]
      exact ⟨fun eq => ⟨eq.symm, zeros, rfl, ne, all⟩, fun ⟨eq, _⟩ => eq.symm⟩
    next other =>
      refine iff_of_false (Option.some_ne_none n).symm ?_
      rintro ⟨-, _, ⟨⟩, ne, all⟩
      exact other ⟨ne, List.all_eq_true.2 fun c mem => beq_iff_eq.2 (all c mem)⟩
  · have unsigned : word32? text = (natural? (UInt32.size - 1) text).map UInt32.ofNat := by
      rw [word32?]
      rintro rest rfl
      exact minus rfl
    rw [SpellsWord32, or_iff_left (by rintro ⟨-, zeros, rfl, -⟩; exact minus rfl), unsigned,
      Option.map_eq_some_iff]
    constructor
    · rintro ⟨m, read, rfl⟩
      obtain ⟨spelled, le⟩ := natural?_eq_some_iff.1 read
      rwa [UInt32.toNat_ofNat_of_lt' (Nat.lt_of_le_pred (by decide) le)]
    · intro spelled
      exact ⟨n.toNat, natural?_eq_some_iff.2 ⟨spelled, Nat.le_pred_of_lt n.toNat_lt⟩,
        UInt32.ofNat_toNat⟩

end Given

namespace Setting

abbrev Value : Setting → Type
  | .address => String
  | .maxAttempts => UInt32
  | .retryDelay | .commandTimeout | .interval => Nat
  | .backoffFactor => Binary64

/-- The value that a text has; times are in the units of their options. -/
def Spells : (setting : Setting) → setting.Value → String → Prop
  | .address, value, text => value = text
  | .maxAttempts, n, text => SpellsWord32 n text.toList
  | .retryDelay, n, text | .commandTimeout, n, text | .interval, n, text =>
      SpellsWord64 n text.toList
  | .backoffFactor, x, text => x.Spells text.toList

def read? : (setting : Setting) → String → Option setting.Value
  | .address, text => some text
  | .maxAttempts, text => Given.word32? text.toList
  | .retryDelay, text | .commandTimeout, text | .interval, text => Given.word64? text.toList
  | .backoffFactor, text => Binary64.ofText? text

theorem read?_eq_some_iff {setting : Setting} {text : String} {value : setting.Value} :
    setting.read? text = some value ↔ setting.Spells value text := by
  cases setting with
  | address => exact Option.some_inj.trans eq_comm
  | maxAttempts => exact Given.word32?_eq_some_iff
  | retryDelay | commandTimeout | interval => exact Given.word64?_eq_some_iff
  | backoffFactor => exact Binary64.ofText?_eq_some_iff

/-- Whether a text has a value at all. -/
def Parses (setting : Setting) (text : String) : Prop := ∃ value, setting.Spells value text

theorem parses_iff {setting : Setting} {text : String} :
    setting.Parses text ↔ (setting.read? text).isSome = true := by
  simp only [Parses, ← read?_eq_some_iff, Option.isSome_iff_exists]

instance (setting : Setting) (text : String) : Decidable (setting.Parses text) :=
  decidable_of_iff _ parses_iff.symm

end Setting

end NodeInventory
