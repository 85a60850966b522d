import NodeInventory.Proofs.Number.Decimal
import NodeInventory.Proofs.Number.Nearest
import NodeInventory.Proofs.Number.Power
import NodeInventory.Proofs.Text.Case

/-!
# Floating point numbers in texts

A text spells the number nearest to its decimal, or infinity where that is out of range, and both
infinity and what is not a number have names.  `Binary64.ofText?` reads what is spelled like that,
and nothing else: what it does not work out for decimals far out of range comes to the same.
-/

namespace NodeInventory.Number

attribute [local irreducible] one overflow

/-! ## Values of decimals -/

def Decimal.value (d : Decimal) : ℚ := d.digits * 10 ^ d.exponent

theorem Decimal.value_nonneg (d : Decimal) : 0 ≤ d.value :=
  mul_nonneg (Nat.cast_nonneg _) (zpow_pos (by decide) _).le

theorem digits_lt (n : Nat) : n < 10 ^ digitCount n :=
  (Nat.length_toDigits_le_iff (by decide) (List.length_pos_iff.2 Nat.toDigits_ne_nil)).1
    (Nat.le_refl _)

theorem le_digits {n : Nat} (pos : 0 < n) : 10 ^ (digitCount n - 1) ≤ n := by
  rcases Nat.eq_zero_or_pos (digitCount n - 1) with zero | more
  · rwa [zero]
  · refine Nat.le_of_not_lt fun below => ?_
    have shorter : digitCount n ≤ digitCount n - 1 :=
      (Nat.length_toDigits_le_iff (by decide) more).2 below
    omega

variable {d : Decimal}

theorem Decimal.value_lt (d : Decimal) : d.value < 10 ^ (d.exponent + digitCount d.digits) := by
  rw [value, zpow_add₀ (by decide), mul_comm, zpow_natCast]
  refine mul_lt_mul_of_pos_left ?_ (zpow_pos (by decide) _)
  exact_mod_cast digits_lt d.digits

theorem Decimal.le_value (pos : 0 < d.digits) :
    10 ^ (d.exponent + digitCount d.digits - 1) ≤ d.value := by
  have count : 0 < digitCount d.digits := List.length_pos_iff.2 Nat.toDigits_ne_nil
  have shifted : d.exponent + digitCount d.digits - 1 =
      d.exponent + (digitCount d.digits - 1 : Nat) := by omega
  rw [shifted, value, zpow_add₀ (by decide), mul_comm, zpow_natCast]
  refine mul_le_mul_of_nonneg_right ?_ (zpow_pos (by decide) _).le
  exact_mod_cast le_digits pos

end NodeInventory.Number

namespace NodeInventory.Binary64

open Number

attribute [local irreducible] Number.one overflow

/-! ## Rounding -/

/-- The number nearest to a magnitude, which is infinite where that has too many bits. -/
inductive Rounds (value : ℚ) (negative : Bool) : Binary64 → Prop
  | finite {u} (representable : Representable u) (nearest : IsNearest (value * Number.one) u) :
      Rounds value negative (.finite negative u representable)
  | infinite {u} (beyond : overflow ≤ u) (nearest : IsNearest (value * Number.one) u) :
      Rounds value negative (.infinite negative)

theorem Rounds.unique {value : ℚ} {negative : Bool} {x y : Binary64}
    (rounds : Rounds value negative x) (rounds' : Rounds value negative y) : x = y := by
  cases rounds with
  | finite representable nearest =>
      cases rounds' with
      | finite _ nearest' => cases nearest.unique nearest'; rfl
      | infinite beyond nearest' =>
          cases nearest.unique nearest'
          exact absurd representable.1 (Nat.not_lt.2 beyond)
  | infinite beyond nearest =>
      cases rounds' with
      | finite representable nearest' =>
          cases nearest.unique nearest'
          exact absurd representable.1 (Nat.not_lt.2 beyond)
      | infinite => rfl

theorem rounds_ofRatio {value : ℚ} (negative : Bool) {p q : Nat} (hq : 0 < q)
    (eq : value * Number.one = p / q) : Rounds value negative (ofRatio negative p q) := by
  have nearest := isNearest_nearest p hq
  rw [← eq] at nearest
  rw [ofRatio]
  split
  next => exact .finite _ nearest
  next beyond => exact .infinite (Nat.le_of_not_lt beyond) nearest

variable {d : Decimal} (negative : Bool)

theorem value_mul_one_of_nonneg (nonneg : 0 ≤ d.exponent) :
    d.value * Number.one =
      (d.digits * Nat.pow 10 d.exponent.toNat * Number.one : Nat) / (1 : Nat) := by
  obtain ⟨n, eq⟩ := Int.eq_ofNat_of_zero_le nonneg
  rw [Decimal.value, eq, zpow_natCast, Int.toNat_natCast, Nat.pow_eq]
  push_cast
  rw [div_one]

theorem value_mul_one_of_neg (neg : d.exponent < 0) :
    d.value * Number.one =
      (d.digits * Number.one : Nat) / (Nat.pow 10 (-d.exponent).toNat : Nat) := by
  obtain ⟨n, eq⟩ := Int.eq_ofNat_of_zero_le (Int.neg_nonneg_of_nonpos neg.le)
  have exponent : d.exponent = -(n : Int) := by omega
  rw [eq, Int.toNat_natCast, Decimal.value, exponent, zpow_neg, zpow_natCast, Nat.pow_eq]
  push_cast
  ring

theorem exists_ratio (d : Decimal) :
    ∃ p q : Nat, 0 < q ∧ d.value * Number.one = p / q := by
  rcases lt_or_ge d.exponent 0 with neg | nonneg
  · exact ⟨_, _, Nat.pow_pos (by decide), value_mul_one_of_neg neg⟩
  · exact ⟨_, _, Nat.one_pos, value_mul_one_of_nonneg nonneg⟩

/-- What is no more than half a unit is zero. -/
theorem isNearest_zero {magnitude : ℚ} (nonneg : 0 ≤ magnitude) (le : magnitude ≤ 1 / 2) :
    IsNearest magnitude 0 := by
  have apart (v : Nat) (_ : gap v ∣ v) : v ≤ 0 ∨ 1 ≤ v := by omega
  have distance : |((0 : Nat) : ℚ) - magnitude| = magnitude := by
    rw [Nat.cast_zero, zero_sub, abs_neg, abs_of_nonneg nonneg]
  refine .of_neighbour apart (Nat.dvd_zero _) (.inl rfl) ?_ ?_ fun _ => by simp
  · rw [distance, Nat.cast_zero, sub_zero]
  · rw [distance, Nat.cast_one]
    linarith

theorem nearest_zero : nearest 0 1 = 0 := nearest_one (Nat.dvd_zero _)

theorem overflow_pos : 0 < overflow :=
  Nat.zero_lt_of_lt (two_pow_lt_overflow (k := 0) (by decide))

theorem two_mul_one_le : 2 * Number.one ≤ 10 ^ 331 := by decide +kernel

theorem mul_le_half {value units : ℚ} {k : Nat} (value_le : value ≤ (10 ^ k)⁻¹)
    (le : 2 * units ≤ 10 ^ k) (nonneg : 0 ≤ units) : value * units ≤ 1 / 2 := by
  have pos : (0 : ℚ) < 10 ^ k := pow_pos (by decide) k
  calc value * units ≤ (10 ^ k)⁻¹ * units := mul_le_mul_of_nonneg_right value_le nonneg
    _ ≤ 1 / 2 := by
      rw [inv_mul_le_iff₀ pos]
      linarith

/-- A decimal with 330 zeros behind its point is less than half a unit. -/
theorem value_mul_one_le_half (small : d.exponent + digitCount d.digits < -330) :
    d.value * Number.one ≤ 1 / 2 := by
  refine mul_le_half (k := 331) ?_ (by exact_mod_cast two_mul_one_le) (Nat.cast_nonneg _)
  rw [← zpow_natCast, ← zpow_neg]
  exact d.value_lt.le.trans (zpow_le_zpow_right₀ (by norm_num) (by push_cast; omega))

theorem two_pow_le_ten_pow : 2 ^ 1024 ≤ 10 ^ 310 := by decide +kernel

/-- A decimal with 310 digits before its point is out of range. -/
theorem overflow_le_of_value (pos : 0 < d.digits)
    (large : 310 < d.exponent + digitCount d.digits) {u : Nat}
    (nearest : IsNearest (d.value * Number.one) u) : overflow ≤ u := by
  obtain ⟨p, q, hq, eq⟩ := exists_ratio d
  rw [eq] at nearest
  rw [nearest.unique (isNearest_nearest p hq)]
  refine (overflow_le (Nat.le_refl 1024)).trans (le_nearest (dvd_two_pow 1024) hq ?_)
  have power : (2 : ℚ) ^ 1024 ≤ d.value := by
    calc (2 : ℚ) ^ 1024 ≤ 10 ^ 310 := by exact_mod_cast two_pow_le_ten_pow
      _ = 10 ^ (310 : Int) := (zpow_natCast _ 310).symm
      _ ≤ 10 ^ (d.exponent + digitCount d.digits - 1) :=
        zpow_le_zpow_right₀ (by norm_num) (by omega)
      _ ≤ d.value := Decimal.le_value pos
  have units : (2 : ℚ) ^ 1024 * Number.one ≤ p / q := by
    rw [← eq]
    gcongr
  rw [le_div_iff₀ (by exact_mod_cast hq)] at units
  exact_mod_cast units

/-- A decimal is rounded as a whole, however it is worked out. -/
theorem rounds_toBinary64 (d : Decimal) : Rounds d.value negative (d.toBinary64 negative) := by
  rw [Decimal.toBinary64]
  split
  next small =>
    have zero : IsNearest (d.value * Number.one) 0 := by
      refine isNearest_zero (mul_nonneg d.value_nonneg (Nat.cast_nonneg _)) ?_
      rcases small with none | small
      · rw [Decimal.value, none, Nat.cast_zero, zero_mul, zero_mul]
        norm_num
      · exact value_mul_one_le_half small
    rw [ofRatio_eq nearest_zero ⟨overflow_pos, Nat.dvd_zero _⟩]
    exact .finite _ zero
  next sizable =>
    rw [not_or, Int.not_lt] at sizable
    split
    next large =>
      obtain ⟨p, q, hq, eq⟩ := exists_ratio d
      have nearest := isNearest_nearest p hq
      rw [← eq] at nearest
      exact .infinite (overflow_le_of_value (Nat.pos_of_ne_zero sizable.1) large nearest) nearest
    next =>
      split
      next nonneg => exact rounds_ofRatio _ Nat.one_pos (value_mul_one_of_nonneg nonneg)
      next neg =>
        exact rounds_ofRatio _ (Nat.pow_pos (by decide)) (value_mul_one_of_neg (by omega))

/-! ## Texts -/

/-- Infinity in words of ASCII, in any case. -/
def NamesInfinity (name : List Char) : Prop :=
  name.map Char.toLower = "inf".toList ∨ name.map Char.toLower = "infinity".toList

/-- What is not a number, in any case. -/
def NamesNan (name : List Char) : Prop := name.map Char.toLower = "nan".toList

/-- A number in a text: a decimal that rounds to it, or its name, with a sign or none. -/
inductive Spells : Binary64 → List Char → Prop
  | decimal {negative mark text d x} (signs : SpellsSign negative mark)
      (spelled : SpellsDecimal d text) (rounds : Rounds d.value negative x) :
      Spells x (mark ++ text)
  | infinity {negative mark name} (signs : SpellsSign negative mark)
      (names : NamesInfinity name) : Spells (.infinite negative) (mark ++ name)
  | nan {negative mark name} (signs : SpellsSign negative mark) (names : NamesNan name) :
      Spells .nan (mark ++ name)

/-- A character with which a decimal starts, behind its sign. -/
def StartsDecimal (c : Char) : Prop := c.isDigit = true ∨ c = '.'

theorem StartsDecimal.isUpper_eq_false {c : Char} (starts : StartsDecimal c) :
    c.isUpper = false := by
  rcases starts with digit | rfl
  · refine eq_false_of_ne_true fun capital => ?_
    have low : 65 ≤ c.toNat := (Text.isUpper_iff.1 capital).1
    rw [Char.isDigit, Bool.and_eq_true, decide_eq_true_iff, decide_eq_true_iff] at digit
    have high : c.toNat ≤ 57 := digit.2
    omega
  · decide

theorem exists_startsDecimal {d : Decimal} {text : List Char} (spelled : SpellsDecimal d text) :
    ∃ c, text.head? = some c ∧ StartsDecimal c := by
  cases spelled with
  | @mk whole fraction behind tail n e all ne fractions exponents =>
      cases whole with
      | cons c whole => exact ⟨c, rfl, .inl (all.digit c List.mem_cons_self)⟩
      | nil =>
          cases fractions with
          | none => exact absurd rfl ne
          | some => exact ⟨'.', rfl, .inr rfl⟩

/-- A name starts with a letter. -/
theorem exists_letter {name : List Char} (names : NamesInfinity name ∨ NamesNan name) :
    ∃ c, name.head? = some c ∧ (c.toLower = 'i' ∨ c.toLower = 'n') := by
  rcases names with (short | long) | nan
  · obtain ⟨c, rest, rfl, first, -⟩ := List.map_eq_cons_iff.1 short
    exact ⟨c, rfl, .inl first⟩
  · obtain ⟨c, rest, rfl, first, -⟩ := List.map_eq_cons_iff.1 long
    exact ⟨c, rfl, .inl first⟩
  · obtain ⟨c, rest, rfl, first, -⟩ := List.map_eq_cons_iff.1 nan
    exact ⟨c, rfl, .inr first⟩

/-- What is no capital is a letter only where it is that letter. -/
theorem not_letter {c : Char} (small : c.isUpper = false) (other : c ≠ 'i' ∧ c ≠ 'n') :
    ¬(c.toLower = 'i' ∨ c.toLower = 'n') := by
  rw [Text.toLower_eq_self small, not_or]
  exact other

theorem StartsDecimal.not_letter {c : Char} (starts : StartsDecimal c) :
    ¬(c.toLower = 'i' ∨ c.toLower = 'n') := by
  refine Binary64.not_letter starts.isUpper_eq_false ?_
  rcases starts with digit | rfl
  · constructor <;> rintro rfl <;> exact absurd digit (by decide)
  · decide

theorem sign_append_decimal {negative : Bool} {mark text : List Char} {d : Decimal}
    (signs : SpellsSign negative mark) (spelled : SpellsDecimal d text) :
    sign (mark ++ text) = (negative, text) := by
  obtain ⟨c, head, starts⟩ := exists_startsDecimal spelled
  refine sign_append signs fun b mem => ?_
  cases head.symm.trans mem
  constructor <;> rintro rfl <;> rcases starts with digit | point <;>
    first | exact absurd digit (by decide) | exact absurd point (by decide)

section Names

variable {negative : Bool} {mark name : List Char} (names : NamesInfinity name ∨ NamesNan name)

include names

theorem sign_append_name (signs : SpellsSign negative mark) :
    sign (mark ++ name) = (negative, name) := by
  obtain ⟨c, head, letter⟩ := exists_letter names
  refine sign_append signs fun b mem => ?_
  cases head.symm.trans mem
  constructor <;> rintro rfl <;> exact absurd letter (not_letter (by decide) (by decide))

theorem decimal?_name : decimal? name = none := by
  obtain ⟨c, head, letter⟩ := exists_letter names
  cases read : decimal? name with
  | none => rfl
  | some d =>
      obtain ⟨b, head', starts⟩ := exists_startsDecimal (decimal?_eq_some_iff.1 read)
      cases head.symm.trans head'
      exact absurd letter starts.not_letter

end Names

theorem ofText?_of_sign {text : String} {negative : Bool} {rest : List Char}
    (signed : sign text.toList = (negative, rest)) (x : Binary64) :
    ofText? text = some x ↔
      (∃ d, decimal? rest = some d ∧ d.toBinary64 negative = x) ∨
      decimal? rest = none ∧ (NamesInfinity rest ∧ .infinite negative = x ∨
        ¬NamesInfinity rest ∧ NamesNan rest ∧ .nan = x) := by
  have named (word : String) :
      String.ofList (rest.map Char.toLower) = word ↔ rest.map Char.toLower = word.toList := by
    rw [← String.toList_inj, String.toList_ofList]
  rw [ofText?, signed, NamesInfinity, NamesNan, ← named, ← named, ← named]
  dsimp only
  cases decimal? rest with
  | some d => simp
  | none =>
      dsimp only
      generalize String.ofList (rest.map Char.toLower) = name
      split
      next names => simp [names]
      next unnamed => split <;> simp [*]

/-- What is read is what is spelled. -/
theorem ofText?_eq_some_iff {text : String} {x : Binary64} :
    ofText? text = some x ↔ Spells x text.toList := by
  constructor
  · intro read
    obtain ⟨mark, signs, split⟩ := exists_sign text.toList
    rw [split]
    rcases (ofText?_of_sign rfl x).1 read with ⟨d, eq, rfl⟩ | ⟨-, ⟨names, rfl⟩ | ⟨-, names, rfl⟩⟩
    · exact .decimal signs (decimal?_eq_some_iff.1 eq) (rounds_toBinary64 _ d)
    · exact .infinity signs names
    · exact .nan signs names
  · intro spelled
    generalize eq : text.toList = chars at spelled
    cases spelled with
    | decimal signs spelled rounds =>
        have signed := sign_append_decimal signs spelled
        rw [← eq] at signed
        refine (ofText?_of_sign signed x).2 (.inl ⟨_, decimal?_eq_some_iff.2 spelled, ?_⟩)
        exact (rounds_toBinary64 _ _).unique rounds
    | infinity signs names =>
        have signed := sign_append_name (.inl names) signs
        rw [← eq] at signed
        exact (ofText?_of_sign signed _).2 (.inr ⟨decimal?_name (.inl names), .inl ⟨names, rfl⟩⟩)
    | @nan _ _ name signs names =>
        have signed := sign_append_name (.inr names) signs
        have finite : ¬NamesInfinity name := by
          rintro (short | long)
          · exact absurd (short.symm.trans names) (by decide)
          · exact absurd (long.symm.trans names) (by decide)
        rw [← eq] at signed
        refine (ofText?_of_sign signed _).2 (.inr ⟨decimal?_name (.inr names), .inr ?_⟩)
        exact ⟨finite, names, rfl⟩

end NodeInventory.Binary64
