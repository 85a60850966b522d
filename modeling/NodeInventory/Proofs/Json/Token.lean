import NodeInventory.Proofs.Json.Spelling
import NodeInventory.Proofs.List
import NodeInventory.Proofs.Text.Utf8

/-!
# Reading tokens

Each reader of a token takes a spelling off the front of a text, whatever follows.  A numeral needs
to be delimited, since nothing else ends it.
-/

namespace NodeInventory.Json

open Text

/-! ## Blanks and marks -/

theorem skipBlank_append {blanks : List UInt8} (h : Blanks blanks) {b : UInt8}
    (solid : isBlank b = false) (rest : List UInt8) :
    skipBlank (blanks ++ b :: rest) = b :: rest := by
  rw [skipBlank, List.dropWhile_append_of_pos h, List.dropWhile_cons_of_neg]
  rw [solid]
  exact Bool.false_ne_true

theorem mark_append {blanks : List UInt8} (h : Blanks blanks) {wanted : UInt8}
    (solid : isBlank wanted = false) (rest : List UInt8) :
    mark wanted (blanks ++ wanted :: rest) = .ok rest := by
  rw [mark, skipBlank_append h solid]
  exact if_pos rfl

theorem keyword_append (word rest : List UInt8) : keyword word (word ++ rest) = .ok rest := by
  induction word with
  | nil => rfl
  | cons k word ih =>
      rw [List.cons_append, keyword, if_pos rfl]
      exact ih

/-! ## Strings -/

theorem codeUnit_append {digits : List UInt8} {n : Nat} (four : digits.length = 4)
    (value : hexValue? digits = some n) (rest : List UInt8) :
    codeUnit (digits ++ rest) = .ok (n, rest) := by
  match digits, four with
  | [a, b, c, d], _ =>
      rw [List.cons_append, List.cons_append, List.cons_append, List.cons_append, List.nil_append,
        codeUnit, value]

theorem lowHalf_append {c : Char} {digits : List UInt8} {high low : Nat}
    (four : digits.length = 4) (value : hexValue? digits = some low)
    (isLow : isLowSurrogate low = true)
    (code : c.toNat = 0x10000 + (high - 0xD800) * 0x400 + (low - 0xDC00)) (rest : List UInt8) :
    lowHalf high (ascii '\\' :: ascii 'u' :: (digits ++ rest)) = .ok (c, rest) := by
  simp only [lowHalf, exactly, if_true, bind, Except.bind, codeUnit_append four value, isLow,
    ← code, Char.ofNat_toNat]

/-- The code point of a character is no surrogate. -/
theorem not_surrogate (c : Char) :
    isLowSurrogate c.toNat = false ∧ isHighSurrogate c.toNat = false := by
  have valid := Utf8.toNat_valid c
  simp only [isLowSurrogate, isHighSurrogate, Bool.and_eq_false_iff, decide_eq_false_iff_not]
  omega

theorem not_isLowSurrogate {n : Nat} (isHigh : isHighSurrogate n = true) :
    isLowSurrogate n = false := by
  simp only [isHighSurrogate, isLowSurrogate, Bool.and_eq_true, decide_eq_true_eq,
    Bool.and_eq_false_iff, decide_eq_false_iff_not] at isHigh ⊢
  omega

theorem stringBytes_quote (rest : List UInt8) :
    stringBytes (ascii '"' :: rest) = .ok ([], rest) := by
  rw [stringBytes, if_pos rfl]

theorem stringBytes_escape {c : Char} {bytes rest : List UInt8}
    (h : escape bytes = .ok (c, rest)) :
    stringBytes (ascii '\\' :: bytes) =
      (stringBytes rest).map fun found => (String.utf8EncodeChar c ++ found.1, found.2) := by
  rw [stringBytes, if_neg (by decide), if_pos rfl]
  split
  next failed => cases h.symm.trans failed
  next read => cases h.symm.trans read; rfl

theorem stringBytes_raw {raw : List UInt8}
    (h : ∀ b ∈ raw, b ≠ ascii '"' ∧ b ≠ ascii '\\' ∧ ¬b < 0x20) (rest : List UInt8) :
    stringBytes (raw ++ rest) =
      (stringBytes rest).map fun found => (raw ++ found.1, found.2) := by
  induction raw with
  | nil =>
      rw [List.nil_append]
      cases stringBytes rest <;> rfl
  | cons b raw ih =>
      obtain ⟨no_quote, no_backslash, printable⟩ := h b List.mem_cons_self
      rw [List.cons_append, stringBytes, if_neg no_quote, if_neg no_backslash, if_neg printable,
        ih fun b mem => h b (List.mem_cons_of_mem _ mem)]
      cases stringBytes rest <;> rfl

/-- An escape, behind its backslash. -/
theorem escape_unit (bytes : List UInt8) : escape (ascii 'u' :: bytes) = namedChar bytes := by
  rw [escape, if_pos rfl]

theorem escape_letter {b : UInt8} {c : Char} (h : shortEscape? b = some c) (rest : List UInt8) :
    escape (b :: rest) = .ok (c, rest) := by
  have not_unit : b ≠ ascii 'u' := by
    rintro rfl
    have none : shortEscape? (ascii 'u') = none := by decide
    rw [none] at h
    cases h
  rw [escape, if_neg not_unit, h]

/-- The bytes of a character that needs no escape. -/
theorem raw_of_mem {c : Char} (printable : 0x20 ≤ c.toNat) (no_quote : c ≠ '"')
    (no_backslash : c ≠ '\\') {b : UInt8} (mem : b ∈ String.utf8EncodeChar c) :
    b ≠ ascii '"' ∧ b ≠ ascii '\\' ∧ ¬b < 0x20 := by
  have quote : c.toNat ≠ '"'.toNat := fun eq => no_quote (Char.toNat_inj.1 eq)
  have backslash : c.toNat ≠ '\\'.toNat := fun eq => no_backslash (Char.toNat_inj.1 eq)
  have value := Utf8.mem_utf8EncodeChar mem
  refine ⟨?_, ?_, ?_⟩
  · rintro rfl
    rcases value with eq | ge
    · exact quote eq.symm
    · exact absurd ge (by decide)
  · rintro rfl
    rcases value with eq | ge
    · exact backslash eq.symm
    · exact absurd ge (by decide)
  · rw [UInt8.lt_iff_toNat_lt]
    rcases value with eq | ge
    · rw [eq]
      exact Nat.not_lt.2 printable
    · exact Nat.not_lt.2 (Nat.le_trans (by decide) ge)

/-- A character in front of the rest of a string. -/
theorem stringBytes_char {c : Char} {text : List UInt8} (h : SpellsChar c text)
    (rest : List UInt8) :
    stringBytes (text ++ rest) =
      (stringBytes rest).map fun found => (String.utf8EncodeChar c ++ found.1, found.2) := by
  cases h with
  | raw printable no_quote no_backslash =>
      exact stringBytes_raw (fun b mem => raw_of_mem printable no_quote no_backslash mem) rest
  | letter escapes => exact stringBytes_escape (escape_letter escapes rest)
  | @unit digits four value =>
      have read : escape (ascii 'u' :: (digits ++ rest)) = .ok (c, rest) := by
        obtain ⟨not_low, not_high⟩ := not_surrogate c
        rw [escape_unit, namedChar]
        simp only [bind, Except.bind, codeUnit_append four value, not_low, not_high,
          Char.ofNat_toNat, Bool.false_eq_true, if_false]
      exact stringBytes_escape read
  | @surrogates highDigits lowDigits high low four four' value value' isHigh isLow code =>
      have not_low := not_isLowSurrogate isHigh
      have read : escape (ascii 'u' :: (highDigits ++ ascii '\\' :: ascii 'u' ::
          (lowDigits ++ rest))) = .ok (c, rest) := by
        rw [escape_unit, namedChar]
        simp only [bind, Except.bind, codeUnit_append four value, not_low, isHigh,
          Bool.false_eq_true, if_false, if_true]
        exact lowHalf_append four' value' isLow code rest
      have spelled := stringBytes_escape read
      simp only [List.cons_append, List.append_assoc]
      exact spelled

theorem stringBytes_append {s : List Char} {text : List UInt8} (h : SpellsChars s text)
    (rest : List UInt8) :
    stringBytes (text ++ ascii '"' :: rest) = .ok (Utf8.encode s, rest) := by
  induction h with
  | nil => exact stringBytes_quote rest
  | cons char _ ih =>
      rw [List.append_assoc, stringBytes_char char, ih]
      rfl

theorem stringBody_append {s : String} {text : List UInt8} (h : SpellsChars s.toList text)
    (rest : List UInt8) : stringBody (text ++ ascii '"' :: rest) = .ok (s, rest) := by
  simp only [stringBody, stringBytes_append h, Utf8.decode?_encode, String.ofList_toList]

/-- The key of a member. -/
theorem key_append {s : String} {text blanks : List UInt8} (h : SpellsString s text)
    (before : Blanks blanks) (rest : List UInt8) :
    key (blanks ++ (text ++ rest)) = .ok (s, rest) := by
  cases h with
  | quoted chars =>
      rw [key, List.cons_append, mark_append before (by decide), List.append_assoc,
        List.singleton_append]
      exact stringBody_append chars rest

/-! ## Numbers -/

/-- The first byte, if there is one, is none of those. -/
def Avoids (p : UInt8 → Bool) (bytes : List UInt8) : Prop := ∀ b ∈ bytes.head?, p b = false

theorem avoids_cons {p : UInt8 → Bool} {b : UInt8} (h : p b = false) (rest : List UInt8) :
    Avoids p (b :: rest) := by
  intro b' mem
  cases mem
  exact h

/-- A byte that would go on with a numeral. -/
def isNumeric (b : UInt8) : Bool :=
  isDigit b || b = ascii '.' || b = ascii 'e' || b = ascii 'E'

/-- Whether what follows leaves a numeral as it is: nothing, a blank, a comma or a bracket. -/
def Delimited (rest : List UInt8) : Prop := Avoids isNumeric rest

theorem delimited_nil : Delimited [] := fun _ mem => (by cases mem)

theorem not_isDigit_of_delimited {rest : List UInt8} (h : Delimited rest) :
    Avoids isDigit rest := by
  intro b mem
  have := h b mem
  simp only [isNumeric, Bool.or_eq_false_iff] at this
  exact this.1.1.1

theorem Digits.exists_cons {digits : List UInt8} (h : Digits digits) :
    ∃ b rest, digits = b :: rest ∧ isDigit b = true := by
  obtain ⟨nonempty, all⟩ := h
  cases digits with
  | nil => exact absurd rfl nonempty
  | cons b rest => exact ⟨b, rest, rfl, all b List.mem_cons_self⟩

theorem digits_append {cut : Fault} {found rest : List UInt8} (h : Digits found)
    (stops : Avoids isDigit rest) : digits cut (found ++ rest) = .ok (found, rest) := by
  obtain ⟨take, drop⟩ := cut_append_of_stop h.2 stops
  obtain ⟨b, found, rfl, digit⟩ := h.exists_cons
  rw [List.cons_append, digits, if_pos digit, ← List.cons_append, take, drop]

theorem wholeDigits_append {cut : Fault} {whole rest : List UInt8} (h : Digits whole)
    (leading : whole.head? = some (ascii '0') → whole = [ascii '0'])
    (stops : Avoids isDigit rest) : wholeDigits cut (whole ++ rest) = .ok (whole, rest) := by
  have proper : ¬(whole.head? = some (ascii '0') ∧ whole ≠ [ascii '0']) := by
    rintro ⟨zero, more⟩
    exact more (leading zero)
  rw [wholeDigits, digits_append h stops]
  exact if_neg proper

theorem fractionDigits_append {cut : Fault} {fraction text rest : List UInt8}
    (h : SpellsFraction fraction text) (stops : Avoids isDigit rest)
    (no_point : Avoids (· = ascii '.') rest) :
    fractionDigits cut (text ++ rest) = .ok (fraction, rest) := by
  cases h with
  | none =>
      cases rest with
      | nil => rfl
      | cons b rest =>
          have := no_point b rfl
          rw [List.nil_append, fractionDigits, if_neg (of_decide_eq_false this)]
  | some all =>
      rw [List.cons_append, fractionDigits, if_pos rfl]
      exact digits_append all stops

theorem exponentSign_append {negative : Bool} {sign digits : List UInt8}
    (h : SpellsSign negative sign) (all : Digits digits) (rest : List UInt8) :
    exponentSign (sign ++ (digits ++ rest)) = (negative, digits ++ rest) := by
  cases h with
  | none =>
      obtain ⟨b, digits, rfl, digit⟩ := all.exists_cons
      have unsigned : b ≠ ascii '-' ∧ b ≠ ascii '+' := by
        constructor <;> rintro rfl <;> exact absurd digit (by decide)
      rw [List.nil_append, List.cons_append, exponentSign, if_neg unsigned.1, if_neg unsigned.2]
  | plus => rfl
  | minus => rfl

theorem exponentPart_append {cut : Fault} {exponent : Option (Bool × List UInt8)}
    {text rest : List UInt8} (h : SpellsExponent exponent text) (delimited : Delimited rest) :
    exponentPart cut (text ++ rest) = .ok (exponent, rest) := by
  cases h with
  | none =>
      cases rest with
      | nil => rfl
      | cons b rest =>
          have := delimited b rfl
          simp only [isNumeric, Bool.or_eq_false_iff, decide_eq_false_iff_not] at this
          rw [List.nil_append, exponentPart, if_neg (not_or.2 ⟨this.1.2, this.2⟩)]
  | @some letter negative sign digits isLetter signs all =>
      rw [List.cons_append, exponentPart, if_pos isLetter, List.append_assoc,
        exponentSign_append signs all, digits_append all (not_isDigit_of_delimited delimited)]

theorem unsigned_append (cut : Fault) (negative : Bool)
    {whole fraction fractionText exponentText rest : List UInt8}
    {exponent : Option (Bool × List UInt8)} (all : Digits whole)
    (leading : whole.head? = some (ascii '0') → whole = [ascii '0'])
    (fractions : SpellsFraction fraction fractionText)
    (exponents : SpellsExponent exponent exponentText) (delimited : Delimited rest) :
    unsigned cut negative (whole ++ (fractionText ++ (exponentText ++ rest))) =
      .ok (⟨negative, whole, fraction, exponent⟩, rest) := by
  have behind : Avoids isDigit (exponentText ++ rest) ∧
      Avoids (· = ascii '.') (exponentText ++ rest) := by
    cases exponents with
    | none =>
        refine ⟨not_isDigit_of_delimited delimited, fun b mem => ?_⟩
        have := delimited b mem
        simp only [isNumeric, Bool.or_eq_false_iff] at this
        exact this.1.1.2
    | some isLetter _ _ =>
        rcases isLetter with rfl | rfl <;>
          exact ⟨avoids_cons (by decide) _, avoids_cons (by decide) _⟩
  have stops : Avoids isDigit (fractionText ++ (exponentText ++ rest)) := by
    cases fractions with
    | none => exact behind.1
    | some _ => exact avoids_cons (by decide) _
  rw [unsigned, wholeDigits_append all leading stops]
  dsimp only
  rw [fractionDigits_append fractions behind.1 behind.2]
  dsimp only
  rw [exponentPart_append exponents delimited]

theorem numeral_append {cut : Fault} {n : Numeral} {text rest : List UInt8}
    (h : SpellsNumeral n text) (delimited : Delimited rest) :
    numeral cut (text ++ rest) = .ok (n, rest) := by
  cases h with
  | @parts negative whole fraction fractionText exponentText exponent all leading fractions
      exponents =>
      have read := unsigned_append cut negative all leading fractions exponents delimited
      simp only [List.append_assoc]
      cases negative with
      | true =>
          rw [if_pos rfl, List.singleton_append, numeral, if_pos rfl]
          exact read
      | false =>
          obtain ⟨b, whole, rfl, digit⟩ := all.exists_cons
          have unsigned : b ≠ ascii '-' := by
            rintro rfl
            exact absurd digit (by decide)
          rw [if_neg Bool.false_ne_true, List.nil_append, List.cons_append, numeral,
            if_neg unsigned]
          exact read

theorem rangedNumeral_append {n : Numeral} {text rest : List UInt8} (h : SpellsNumeral n text)
    (inRange : n.inRange = true) (delimited : Delimited rest) :
    rangedNumeral (text ++ rest) = .ok (n, rest) := by
  rw [rangedNumeral, numeral_append h delimited]
  exact if_pos inRange

/-! ## Scalars -/

theorem numeral_head {n : Numeral} {text : List UInt8} (h : SpellsNumeral n text) :
    ∃ b tail, text = b :: tail ∧ (b = ascii '-' ∨ isDigit b = true) := by
  cases h with
  | @parts negative whole fraction fractionText exponentText exponent all _ _ _ =>
      cases negative with
      | true => exact ⟨_, _, rfl, .inl rfl⟩
      | false =>
          obtain ⟨b, whole, rfl, digit⟩ := all.exists_cons
          exact ⟨b, _, rfl, .inr digit⟩

theorem ne_of_numeral_start {b d : UInt8} (starts : b = ascii '-' ∨ isDigit b = true)
    (no_minus : d ≠ ascii '-') (no_digit : isDigit d = false) : b ≠ d := by
  rintro rfl
  rcases starts with minus | digit
  · exact no_minus minus
  · rw [no_digit] at digit
    cases digit

/-- A blank or a bracket, with which no scalar starts. -/
def isMark (b : UInt8) : Bool :=
  isBlank b || isBracket b || b = ascii ']' || b = ascii '}'

theorem scalar_head {s : Scalar} {text : List UInt8} (h : SpellsScalar s text) :
    ∃ b tail, text = b :: tail ∧ isMark b = false := by
  cases h with
  | null => exact ⟨ascii 'n', _, rfl, by decide⟩
  | true => exact ⟨ascii 't', _, rfl, by decide⟩
  | false => exact ⟨ascii 'f', _, rfl, by decide⟩
  | number numeral =>
      obtain ⟨b, tail, rfl, starts⟩ := numeral_head numeral
      refine ⟨b, tail, rfl, ?_⟩
      simp only [isMark, isBlank, isBracket, Bool.or_eq_false_iff, decide_eq_false_iff_not]
      refine ⟨⟨⟨⟨⟨⟨?_, ?_⟩, ?_⟩, ?_⟩, ?_, ?_⟩, ?_⟩, ?_⟩ <;>
        exact ne_of_numeral_start starts (by decide) (by decide)
  | string spelled =>
      cases spelled with
      | quoted chars => exact ⟨ascii '"', _, rfl, by decide⟩

/-- The first byte of a scalar announces what it is. -/
theorem scalarAt_append {s : Scalar} {b : UInt8} {tail rest : List UInt8}
    (h : SpellsScalar s (b :: tail)) (inRange : ∀ n, s = .number n → n.inRange = true)
    (delimited : Delimited rest) : scalarAt b (tail ++ rest) = .ok (s, rest) := by
  generalize eq : b :: tail = text at h
  cases h with
  | null =>
      cases eq
      rw [scalarAt, if_neg (by decide), if_pos rfl, keyword_append]
      rfl
  | true =>
      cases eq
      rw [scalarAt, if_neg (by decide), if_neg (by decide), if_pos rfl, keyword_append]
      rfl
  | false =>
      cases eq
      rw [scalarAt, if_neg (by decide), if_neg (by decide), if_neg (by decide), if_pos rfl,
        keyword_append]
      rfl
  | @number n _ numeral =>
      subst eq
      have read := rangedNumeral_append numeral (inRange n rfl) delimited
      obtain ⟨_, _, eq, starts⟩ := numeral_head numeral
      cases eq
      rw [scalarAt, if_neg (ne_of_numeral_start starts (by decide) (by decide)),
        if_neg (ne_of_numeral_start starts (by decide) (by decide)),
        if_neg (ne_of_numeral_start starts (by decide) (by decide)),
        if_neg (ne_of_numeral_start starts (by decide) (by decide)), if_pos starts,
        ← List.cons_append, read]
      rfl
  | string spelled =>
      cases spelled with
      | quoted chars =>
          cases eq
          rw [scalarAt, if_pos rfl, List.append_assoc, List.singleton_append,
            stringBody_append chars]
          rfl

/-- A scalar that is asked for. -/
theorem readTyped_scalar {α : Type} {accept : Scalar → Option α}
    {inside : UInt8 → Option (List UInt8 → Except Fault (α × List UInt8))}
    (outside : ∀ b, isBracket b = false → inside b = none) {s : Scalar} {a : α}
    (accepts : accept s = some a) {blanks text rest : List UInt8} (before : Blanks blanks)
    (h : SpellsScalar s text) (inRange : ∀ n, s = .number n → n.inRange = true)
    (delimited : Delimited rest) :
    readTyped accept inside (blanks ++ (text ++ rest)) = .ok (a, rest) := by
  obtain ⟨b, tail, rfl, solid⟩ := scalar_head h
  simp only [isMark, Bool.or_eq_false_iff] at solid
  obtain ⟨⟨⟨not_blank, not_bracket⟩, -⟩, -⟩ := solid
  have read := scalarAt_append h inRange delimited
  rw [readTyped, List.cons_append, skipBlank_append before not_blank]
  simp only [outside b not_bracket, not_bracket, read, accepts, Bool.false_eq_true, if_false]

end NodeInventory.Json
