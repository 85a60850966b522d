import Mathlib.Data.List.TakeWhile
import NodeInventory.Proofs.List
import NodeInventory.Proofs.Number.Literal

/-!
# Decimals in texts

A decimal is written in digits, with a point before, among or behind them or with none, and may have
an exponent.  `decimal?` reads what is spelled like that, and nothing else.
-/

namespace NodeInventory.Number

/-! ## Spelling -/

/-- A sign, or none for plus. -/
inductive SpellsSign : Bool → List Char → Prop
  | none : SpellsSign false []
  | plus : SpellsSign false ['+']
  | minus : SpellsSign true ['-']

/-- An exponent behind its letter, or none for zero. -/
inductive SpellsExponent : Int → List Char → Prop
  | none : SpellsExponent 0 []
  | some {letter negative mark n digits} (isLetter : letter = 'e' ∨ letter = 'E')
      (signs : SpellsSign negative mark) (all : Digits n digits) (ne : digits ≠ []) :
      SpellsExponent (if negative then -(n : Int) else n) (letter :: (mark ++ digits))

/-- Digits behind a point, maybe none, or not even the point. -/
inductive SpellsFraction : List Char → List Char → Prop
  | none : SpellsFraction [] []
  | some (digits : List Char) : SpellsFraction digits ('.' :: digits)

/-- Digits on either side of the point, of which there is at least one. -/
inductive SpellsDecimal : Decimal → List Char → Prop
  | mk {whole fraction behind tail n e} (all : Digits n (whole ++ fraction))
      (ne : whole ++ fraction ≠ []) (fractions : SpellsFraction fraction behind)
      (exponents : SpellsExponent e tail) :
      SpellsDecimal ⟨n, e - fraction.length⟩ (whole ++ (behind ++ tail))

/-! ## Signs -/

theorem exists_sign (text : List Char) :
    ∃ mark, SpellsSign (sign text).1 mark ∧ text = mark ++ (sign text).2 := by
  rw [sign.eq_def]
  split
  · exact ⟨_, .minus, rfl⟩
  · exact ⟨_, .plus, rfl⟩
  · exact ⟨_, .none, rfl⟩

theorem sign_append {negative : Bool} {mark rest : List Char} (signs : SpellsSign negative mark)
    (bare : ∀ c ∈ rest.head?, c ≠ '-' ∧ c ≠ '+') : sign (mark ++ rest) = (negative, rest) := by
  cases signs with
  | none =>
      cases rest with
      | nil => rfl
      | cons c rest =>
          obtain ⟨no_minus, no_plus⟩ := bare c rfl
          rw [List.nil_append, sign]
          · rintro _ ⟨⟩
            exact no_minus rfl
          · rintro _ ⟨⟩
            exact no_plus rfl
  | plus => rfl
  | minus => rfl

/-! ## Exponents -/

theorem exponent?_eq_some_iff {text : List Char} {e : Int} :
    exponent? text = some e ↔ SpellsExponent e text := by
  constructor
  · intro read
    match text with
    | [] =>
        cases read
        exact .none
    | letter :: rest =>
        obtain ⟨mark, signs, split⟩ := exists_sign rest
        rw [exponent?] at read
        generalize sign rest = signed at *
        obtain ⟨negative, digits⟩ := signed
        subst split
        split at read
        next isLetter =>
          dsimp only at read
          split at read
          next proper =>
            cases read
            exact .some isLetter signs (digits_iff.2 ⟨proper.2, rfl⟩) proper.1
          next => cases read
        next => cases read
  · intro spelled
    cases spelled with
    | none => rfl
    | some isLetter signs all ne =>
        have bare := all.bare
        obtain ⟨digit, rfl⟩ := digits_iff.1 all
        rw [exponent?, if_pos isLetter, sign_append signs bare]
        exact if_pos ⟨ne, digit⟩

/-! ## Decimals -/

theorem SpellsExponent.stops {tail : List Char} {e : Int} (exponents : SpellsExponent e tail) :
    ∀ c ∈ tail.head?, isDigit c = false ∧ c ≠ '.' := by
  cases exponents with
  | none => nofun
  | some isLetter =>
      rintro c ⟨⟩
      rcases isLetter with rfl | rfl <;> exact ⟨by decide, by decide⟩

theorem decimal?_of_split {text behind whole fraction rest : List Char}
    (cut : text.takeWhile isDigit = whole ∧ text.dropWhile isDigit = behind)
    (point : (∃ after, behind = '.' :: after ∧ after.takeWhile isDigit = fraction ∧
        after.dropWhile isDigit = rest) ∨
      behind.head? ≠ some '.' ∧ fraction = [] ∧ rest = behind) :
    decimal? text = if whole = [] ∧ fraction = [] then none
      else (exponent? rest).map fun e => ⟨valueOf (whole ++ fraction), e - fraction.length⟩ := by
  obtain ⟨take, drop⟩ := cut
  rw [decimal?, take, drop]
  rcases point with ⟨after, rfl, rfl, rfl⟩ | ⟨pointless, rfl, rfl⟩
  · rfl
  · match rest with
    | [] => rfl
    | c :: rest =>
        dsimp only
        split
        next after eq =>
          cases eq
          exact absurd rfl pointless
        next => rfl

theorem spellsDecimal_of_split {whole fraction behind tail : List Char} {d : Decimal}
    (digit : ∀ c ∈ whole ++ fraction, isDigit c = true) (fractions : SpellsFraction fraction behind)
    (read : (if whole = [] ∧ fraction = [] then none
      else (exponent? tail).map fun e => ⟨valueOf (whole ++ fraction), e - fraction.length⟩) =
        some d) :
    SpellsDecimal d (whole ++ (behind ++ tail)) := by
  split at read
  next => cases read
  next nonempty =>
    obtain ⟨e, exponent, rfl⟩ := Option.map_eq_some_iff.1 read
    exact .mk (digits_iff.2 ⟨List.all_eq_true.2 digit, rfl⟩) (mt List.append_eq_nil_iff.1 nonempty)
      fractions (exponent?_eq_some_iff.1 exponent)

theorem decimal?_eq_some_iff {text : List Char} {d : Decimal} :
    decimal? text = some d ↔ SpellsDecimal d text := by
  constructor
  · intro read
    have digit (rest : List Char) : ∀ c ∈ rest.takeWhile isDigit, isDigit c = true :=
      fun c mem => List.mem_takeWhile_imp mem
    rw [← List.takeWhile_append_dropWhile (p := isDigit) (l := text)]
    by_cases point : (text.dropWhile isDigit).head? = some '.'
    · obtain ⟨after, eq⟩ := List.head?_eq_some_iff.1 point
      rw [decimal?_of_split ⟨rfl, rfl⟩ (.inl ⟨after, eq, rfl, rfl⟩)] at read
      have spelled := spellsDecimal_of_split (fun c mem => ?_) (.some _) read
      · rwa [List.cons_append, List.takeWhile_append_dropWhile, ← eq] at spelled
      · exact (List.mem_append.1 mem).elim (digit _ c) (digit _ c)
    · rw [decimal?_of_split ⟨rfl, rfl⟩ (.inr ⟨point, rfl, rfl⟩)] at read
      refine spellsDecimal_of_split (fun c mem => ?_) .none read
      exact digit _ c (List.append_nil (List.takeWhile _ _) ▸ mem)
  · intro spelled
    cases spelled with
    | @mk whole fraction behind tail n e all ne fractions exponents =>
        have exponent := exponent?_eq_some_iff.2 exponents
        obtain ⟨digit, rfl⟩ := digits_iff.1 all
        rw [List.all_append, Bool.and_eq_true, List.all_eq_true, List.all_eq_true] at digit
        have nonempty : ¬(whole = [] ∧ fraction = []) := mt List.append_eq_nil_iff.2 ne
        have stops : ∀ c ∈ tail.head?, isDigit c = false := fun c mem => (exponents.stops c mem).1
        cases fractions with
        | none =>
            have pointless : tail.head? ≠ some '.' := fun point => (exponents.stops '.' point).2 rfl
            rw [List.nil_append, decimal?_of_split (cut_append_of_stop digit.1 stops)
              (.inr ⟨pointless, rfl, rfl⟩), if_neg nonempty, exponent, Option.map_some]
        | some =>
            have point : ∀ c ∈ ('.' :: (fraction ++ tail)).head?, isDigit c = false := by
              rintro c ⟨⟩
              rfl
            rw [List.cons_append, decimal?_of_split (cut_append_of_stop digit.1 point)
              (.inl ⟨_, rfl, cut_append_of_stop digit.2 stops⟩), if_neg nonempty, exponent,
              Option.map_some]

end NodeInventory.Number
