import NodeInventory.Proofs.Json.Syntax

/-!
# What the token readers take

The converse of reading tokens: where a reader succeeds, what it has taken off the front of the
text spells what it returns.
-/

namespace NodeInventory.Json

open Text

/-! ## Blanks and marks -/

theorem skipBlank_eq_cons {bytes rest : List UInt8} {b : UInt8} (h : skipBlank bytes = b :: rest) :
    ∃ blanks, Blanks blanks ∧ isBlank b = false ∧ bytes = blanks ++ b :: rest := by
  induction bytes with
  | nil => cases h
  | cons d bytes ih =>
      by_cases blank : isBlank d = true
      · rw [skipBlank, List.dropWhile_cons_of_pos blank] at h
        obtain ⟨blanks, before, solid, rfl⟩ := ih h
        exact ⟨d :: blanks, List.forall_mem_cons.2 ⟨blank, before⟩, solid, rfl⟩
      · rw [skipBlank, List.dropWhile_cons_of_neg blank] at h
        cases h
        exact ⟨[], List.forall_mem_nil _, eq_false_of_ne_true blank, rfl⟩

theorem skipBlank_eq_nil_iff {bytes : List UInt8} : skipBlank bytes = [] ↔ Blanks bytes := by
  induction bytes with
  | nil => exact ⟨fun _ => List.forall_mem_nil _, fun _ => rfl⟩
  | cons b bytes ih =>
      rw [Blanks, List.forall_mem_cons, ← Blanks, ← ih, skipBlank, List.dropWhile_cons]
      split
      next blank => exact ⟨fun rest => ⟨blank, rest⟩, fun both => both.2⟩
      next solid => exact ⟨fun eq => (by cases eq), fun both => absurd both.1 solid⟩

theorem mark_eq_ok {wanted : UInt8} {bytes rest : List UInt8} (h : mark wanted bytes = .ok rest) :
    ∃ blanks, Blanks blanks ∧ bytes = blanks ++ wanted :: rest := by
  unfold mark at h
  split at h
  next => cases h
  next found =>
    obtain ⟨blanks, before, -, rfl⟩ := skipBlank_eq_cons found
    split at h <;> cases h
    next same => exact ⟨blanks, before, same ▸ rfl⟩

theorem keyword_eq_ok {word bytes rest : List UInt8} (h : keyword word bytes = .ok rest) :
    bytes = word ++ rest := by
  induction word generalizing bytes with
  | nil =>
      cases h
      rfl
  | cons k word ih =>
      cases bytes with
      | nil => cases h
      | cons b bytes =>
          rw [keyword] at h
          split at h
          next same => rw [same, ih h, List.cons_append]
          next => cases h

/-! ## Escapes -/

theorem exactly_eq_ok {wanted : UInt8} {bytes rest : List UInt8}
    (h : exactly wanted bytes = .ok rest) : bytes = wanted :: rest := by
  unfold exactly at h
  split at h
  next => cases h
  next =>
    split at h <;> cases h
    next same => rw [same]

theorem codeUnit_eq_ok {bytes rest : List UInt8} {n : Nat} (h : codeUnit bytes = .ok (n, rest)) :
    ∃ digits, digits.length = 4 ∧ hexValue? digits = some n ∧ bytes = digits ++ rest := by
  unfold codeUnit at h
  split at h
  next a b c d tail =>
    split at h <;> cases h
    next value => exact ⟨[a, b, c, d], rfl, value, rfl⟩
  next => cases h

theorem hexDigit?_lt {b : UInt8} {n : Nat} (h : hexDigit? b = some n) : n < 16 := by
  simp only [hexDigit?, UInt8.le_iff_toNat_le, show (ascii '0').toNat = 48 from rfl,
    show (ascii '9').toNat = 57 from rfl, show (ascii 'a').toNat = 97 from rfl,
    show (ascii 'f').toNat = 102 from rfl, show (ascii 'A').toNat = 65 from rfl,
    show (ascii 'F').toNat = 70 from rfl] at h
  repeat' split at h
  all_goals cases h
  all_goals omega

theorem hexValue?_lt {digits : List UInt8} {n : Nat} (four : digits.length = 4)
    (h : hexValue? digits = some n) : n < 0x10000 := by
  match digits, four with
  | [a, b, c, d], _ =>
      simp only [hexValue?, List.foldlM_cons, List.foldlM_nil, Option.bind_eq_bind,
        Option.bind_eq_some_iff, Option.map_eq_some_iff, Option.pure_def,
        Option.some.injEq] at h
      obtain ⟨_, ⟨a', digit_a, rfl⟩, _, ⟨b', digit_b, rfl⟩, _, ⟨c', digit_c, rfl⟩, _,
        ⟨d', digit_d, rfl⟩, rfl⟩ := h
      have := hexDigit?_lt digit_a
      have := hexDigit?_lt digit_b
      have := hexDigit?_lt digit_c
      have := hexDigit?_lt digit_d
      omega

theorem lowHalf_eq_ok {high : Nat} {bytes rest : List UInt8} {c : Char}
    (h : lowHalf high bytes = .ok (c, rest)) :
    ∃ digits low, digits.length = 4 ∧ hexValue? digits = some low ∧ isLowSurrogate low = true ∧
      c = Char.ofNat (0x10000 + (high - 0xD800) * 0x400 + (low - 0xDC00)) ∧
      bytes = ascii '\\' :: ascii 'u' :: (digits ++ rest) := by
  simp only [lowHalf, bind, Except.bind] at h
  split at h
  next => cases h
  next backslash =>
  split at h
  next => cases h
  next unit =>
  split at h
  next => cases h
  next read =>
  split at h
  next isLow =>
    obtain ⟨char, left⟩ := Prod.mk.inj (Except.ok.inj h)
    obtain ⟨digits, four, value, eq⟩ := codeUnit_eq_ok read
    rw [eq] at unit
    rw [exactly_eq_ok unit, left] at backslash
    exact ⟨digits, _, four, value, isLow, char.symm, exactly_eq_ok backslash⟩
  next => cases h

theorem namedChar_eq_ok {bytes rest : List UInt8} {c : Char}
    (h : namedChar bytes = .ok (c, rest)) :
    ∃ text, SpellsChar c (ascii '\\' :: ascii 'u' :: text) ∧ bytes = text ++ rest := by
  simp only [namedChar, bind, Except.bind] at h
  split at h
  next => cases h
  next n tail read =>
  obtain ⟨digits, four, value, rfl⟩ := codeUnit_eq_ok read
  have small := hexValue?_lt four value
  split at h
  next => cases h
  next not_low =>
  split at h
  next isHigh =>
    obtain ⟨digits', low, four', value', isLow, char, eq⟩ := lowHalf_eq_ok h
    refine ⟨digits ++ (ascii '\\' :: ascii 'u' :: digits'),
      .surrogates four four' value value' isHigh isLow ?_, by simp [eq]⟩
    simp only [isHighSurrogate, isLowSurrogate, Bool.and_eq_true, decide_eq_true_eq]
      at isHigh isLow
    rw [char]
    exact Utf8.toNat_charOfNat (by omega)
  next not_high =>
    cases h
    refine ⟨digits, .unit four ?_, rfl⟩
    simp only [isHighSurrogate, isLowSurrogate, Bool.and_eq_true, decide_eq_true_eq]
      at not_high not_low
    rw [value, Utf8.toNat_charOfNat (by omega)]

theorem escape_eq_ok {bytes rest : List UInt8} {c : Char} (h : escape bytes = .ok (c, rest)) :
    ∃ text, SpellsChar c (ascii '\\' :: text) ∧ bytes = text ++ rest := by
  unfold escape at h
  split at h
  next => cases h
  next b tail =>
  split at h
  next unit =>
    obtain ⟨text, spelled, rfl⟩ := namedChar_eq_ok h
    exact ⟨ascii 'u' :: text, spelled, unit ▸ rfl⟩
  next =>
    split at h <;> cases h
    next letter => exact ⟨[b], .letter letter, rfl⟩

/-! ## Strings -/

/-- The bytes that a string stands for, before they are decoded: some as they are, and the encoding
of a character for each escape. -/
inductive Unescapes : List UInt8 → List UInt8 → Prop
  | nil : Unescapes [] []
  | raw {b : UInt8} {raw text : List UInt8} : ¬b < 0x20 → b ≠ ascii '"' → b ≠ ascii '\\' →
      Unescapes raw text → Unescapes (b :: raw) (b :: text)
  | escape {c : Char} {spelled raw text : List UInt8} : SpellsChar c (ascii '\\' :: spelled) →
      Unescapes raw text →
      Unescapes (String.utf8EncodeChar c ++ raw) (ascii '\\' :: (spelled ++ text))

theorem stringBytes_eq_ok {bytes raw rest : List UInt8} (h : stringBytes bytes = .ok (raw, rest)) :
    ∃ text, Unescapes raw text ∧ bytes = text ++ ascii '"' :: rest := by
  fun_induction stringBytes bytes generalizing raw with
  | case1 => cases h
  | case2 =>
      cases h
      exact ⟨[], .nil, rfl⟩
  | case3 => cases h
  | case4 tail c next read _ ih =>
      obtain ⟨⟨raw, rest⟩, found, eq⟩ := map_eq_ok h
      cases eq
      obtain ⟨text, unescapes, rfl⟩ := ih found
      obtain ⟨spelled, char, rfl⟩ := escape_eq_ok read
      exact ⟨_, .escape char unescapes, by simp⟩
  | case5 => cases h
  | case6 b tail no_quote no_backslash printable ih =>
      obtain ⟨⟨raw, rest⟩, found, eq⟩ := map_eq_ok h
      cases eq
      obtain ⟨text, unescapes, rfl⟩ := ih found
      exact ⟨b :: text, .raw printable no_quote no_backslash unescapes, rfl⟩

/-- The bytes that go on with a character stand in the string as they are, since an escape starts
one. -/
theorem Unescapes.of_continuations {more raw text : List UInt8}
    (continuation : ∀ d ∈ more, Utf8.IsContinuation d) (h : Unescapes (more ++ raw) text) :
    ∃ text', text = more ++ text' ∧ Unescapes raw text' := by
  induction more generalizing text with
  | nil => exact ⟨text, rfl, h⟩
  | cons d more ih =>
      obtain ⟨continues, continuation⟩ := List.forall_mem_cons.1 continuation
      generalize whole : d :: more ++ raw = bytes at h
      cases h with
      | nil => cases whole
      | raw _ _ _ unescapes =>
          cases whole
          obtain ⟨text', eq, later⟩ := ih continuation unescapes
          exact ⟨text', congrArg _ eq, later⟩
      | @escape c _ _ _ _ _ =>
          obtain ⟨b, _, encoded, starts, -⟩ := Utf8.utf8EncodeChar_eq_cons c
          rw [encoded] at whole
          exact absurd continues ((List.cons.inj whole).1 ▸ starts)

/-- The first byte of a character tells whether it needs an escape. -/
theorem spellsChar_raw_of_first {c : Char} {b : UInt8} {more : List UInt8}
    (encoded : String.utf8EncodeChar c = b :: more) (printable : ¬b < 0x20)
    (no_quote : b ≠ ascii '"') (no_backslash : b ≠ ascii '\\') : SpellsChar c (b :: more) := by
  rw [← encoded]
  refine .raw (Nat.le_of_not_lt fun control => printable ?_) ?_ ?_
  · rcases Utf8.utf8EncodeChar_cases c with ⟨-, eq⟩ | ⟨ge, -⟩ | ⟨ge, -⟩ | ⟨ge, -⟩
    · cases encoded.symm.trans eq
      rw [UInt8.lt_iff_toNat_lt, Utf8.toNat_ofNat (by omega)]
      exact control
    all_goals omega
  · rintro rfl
    cases encoded
    exact no_quote rfl
  · rintro rfl
    cases encoded
    exact no_backslash rfl

/-- Where the bytes of a string are the encoding of a text, the string spells this text. -/
theorem Unescapes.spellsChars {s : List Char} {text : List UInt8}
    (h : Unescapes (Utf8.encode s) text) : SpellsChars s text := by
  -- a character's bytes are all raw or the value of one escape, as its first byte decides
  induction s generalizing text with
  | nil =>
      generalize whole : Utf8.encode [] = bytes at h
      cases h with
      | nil => exact .nil
      | raw => cases whole
      | @escape c _ _ _ _ _ =>
          obtain ⟨b, _, encoded, -⟩ := Utf8.utf8EncodeChar_eq_cons c
          rw [encoded] at whole
          cases whole
  | cons c s ih =>
      generalize whole : Utf8.encode (c :: s) = bytes at h
      rw [Utf8.encode_cons] at whole
      obtain ⟨b, more, encoded, -, continuation⟩ := Utf8.utf8EncodeChar_eq_cons c
      cases h with
      | nil =>
          rw [encoded] at whole
          cases whole
      | raw printable no_quote no_backslash unescapes =>
          rw [encoded] at whole
          cases whole
          obtain ⟨text', eq, later⟩ := unescapes.of_continuations continuation
          rw [eq, ← List.cons_append]
          exact .cons (spellsChar_raw_of_first encoded printable no_quote no_backslash) (ih later)
      | escape char unescapes =>
          obtain ⟨rfl, rfl⟩ := Utf8.utf8EncodeChar_append_inj whole
          exact .cons char (ih unescapes)

theorem stringBody_eq_ok {bytes rest : List UInt8} {s : String}
    (h : stringBody bytes = .ok (s, rest)) :
    ∃ text, SpellsString s (ascii '"' :: (text ++ [ascii '"'])) ∧
      bytes = text ++ ascii '"' :: rest := by
  unfold stringBody at h
  split at h
  next => cases h
  next raw tail read =>
  split at h <;> cases h
  next s decoded =>
    obtain ⟨text, unescapes, rfl⟩ := stringBytes_eq_ok read
    rw [Utf8.eq_encode_of_decode? decoded] at unescapes
    refine ⟨text, .quoted ?_, rfl⟩
    rw [String.toList_ofList]
    exact unescapes.spellsChars

theorem key_eq_ok {bytes rest : List UInt8} {s : String} (h : key bytes = .ok (s, rest)) :
    ∃ blanks text, Blanks blanks ∧ SpellsString s text ∧ bytes = blanks ++ (text ++ rest) := by
  unfold key at h
  split at h
  next => cases h
  next quote =>
    obtain ⟨blanks, before, rfl⟩ := mark_eq_ok quote
    obtain ⟨text, spelled, rfl⟩ := stringBody_eq_ok h
    exact ⟨blanks, _, before, spelled, by simp⟩

/-! ## Strings that are passed over -/

theorem skipEscape_eq_ok {bytes rest : List UInt8} (h : skipEscape bytes = .ok rest) :
    ∃ text, IsStringPiece (ascii '\\' :: text) ∧ bytes = text ++ rest := by
  unfold skipEscape at h
  split at h
  next => cases h
  next b tail =>
  split at h
  next unit =>
    obtain ⟨⟨n, rest⟩, read, eq⟩ := map_eq_ok h
    cases eq
    obtain ⟨digits, four, value, rfl⟩ := codeUnit_eq_ok read
    exact ⟨ascii 'u' :: digits, .unit four (Option.isSome_of_eq_some value), unit ▸ rfl⟩
  next =>
    split at h <;> cases h
    next letter => exact ⟨[b], .letter letter, rfl⟩

theorem skipString_eq_ok {bytes rest : List UInt8} (h : skipString bytes = .ok rest) :
    ∃ text, IsStringBody text ∧ bytes = text ++ ascii '"' :: rest := by
  fun_induction skipString bytes with
  | case1 => cases h
  | case2 =>
      cases h
      exact ⟨[], .nil, rfl⟩
  | case3 => cases h
  | case4 tail next read _ ih =>
      obtain ⟨text, body, rfl⟩ := ih h
      obtain ⟨piece, escape, rfl⟩ := skipEscape_eq_ok read
      exact ⟨_, .cons escape body, by simp⟩
  | case5 => cases h
  | case6 b tail no_quote no_backslash printable ih =>
      obtain ⟨text, body, rfl⟩ := ih h
      exact ⟨_, .cons (.raw printable no_quote no_backslash) body, rfl⟩

/-! ## Numbers -/

theorem digits_eq_ok {cut : Fault} {bytes found rest : List UInt8}
    (h : digits cut bytes = .ok (found, rest)) : Digits found ∧ bytes = found ++ rest := by
  unfold digits at h
  split at h
  next => cases h
  next b tail =>
    split at h <;> cases h
    next digit =>
      refine ⟨⟨?_, fun d mem => List.all_eq_true.1 List.all_takeWhile d mem⟩,
        List.takeWhile_append_dropWhile.symm⟩
      rw [List.takeWhile_cons_of_pos digit]
      exact List.cons_ne_nil _ _

theorem wholeDigits_eq_ok {cut : Fault} {bytes found rest : List UInt8}
    (h : wholeDigits cut bytes = .ok (found, rest)) :
    Digits found ∧ (found.head? = some (ascii '0') → found = [ascii '0']) ∧
      bytes = found ++ rest := by
  unfold wholeDigits at h
  split at h
  next => cases h
  next read =>
    split at h <;> cases h
    next proper =>
      obtain ⟨all, eq⟩ := digits_eq_ok read
      exact ⟨all, fun zero => not_not.1 fun more => proper ⟨zero, more⟩, eq⟩

theorem fractionDigits_eq_ok {cut : Fault} {bytes found rest : List UInt8}
    (h : fractionDigits cut bytes = .ok (found, rest)) :
    ∃ text, SpellsFraction found text ∧ bytes = text ++ rest := by
  unfold fractionDigits at h
  split at h
  next =>
    cases h
    exact ⟨[], .none, rfl⟩
  next b tail =>
    split at h
    next point =>
      obtain ⟨all, rfl⟩ := digits_eq_ok h
      exact ⟨_, .some all, point ▸ rfl⟩
    next =>
      cases h
      exact ⟨[], .none, rfl⟩

theorem exponentSign_eq (bytes : List UInt8) :
    ∃ sign, SpellsSign (exponentSign bytes).1 sign ∧ bytes = sign ++ (exponentSign bytes).2 := by
  unfold exponentSign
  split
  next => exact ⟨[], .none, rfl⟩
  next b tail =>
  split
  next minus => exact ⟨_, .minus, minus ▸ rfl⟩
  split
  next plus => exact ⟨_, .plus, plus ▸ rfl⟩
  next => exact ⟨[], .none, rfl⟩

theorem exponentPart_eq_ok {cut : Fault} {bytes rest : List UInt8}
    {found : Option (Bool × List UInt8)} (h : exponentPart cut bytes = .ok (found, rest)) :
    ∃ text, SpellsExponent found text ∧ bytes = text ++ rest := by
  unfold exponentPart at h
  split at h
  next =>
    cases h
    exact ⟨[], .none, rfl⟩
  next b tail =>
    split at h
    next letter =>
      split at h <;> cases h
      next read =>
        obtain ⟨all, eq⟩ := digits_eq_ok read
        obtain ⟨sign, signed, eq'⟩ := exponentSign_eq tail
        refine ⟨_, .some letter signed all, ?_⟩
        rw [List.cons_append, List.append_assoc, ← eq, ← eq']
    next =>
      cases h
      exact ⟨[], .none, rfl⟩

theorem unsigned_eq_ok {cut : Fault} {negative : Bool} {bytes rest : List UInt8} {n : Numeral}
    (h : unsigned cut negative bytes = .ok (n, rest)) :
    ∃ text, SpellsNumeral n ((if negative then [ascii '-'] else []) ++ text) ∧
      bytes = text ++ rest := by
  unfold unsigned at h
  split at h
  next => cases h
  next whole =>
  split at h
  next => cases h
  next fraction =>
  split at h <;> cases h
  next exponent =>
    obtain ⟨all, leading, rfl⟩ := wholeDigits_eq_ok whole
    obtain ⟨_, fractions, rfl⟩ := fractionDigits_eq_ok fraction
    obtain ⟨_, exponents, rfl⟩ := exponentPart_eq_ok exponent
    exact ⟨_, .parts all leading fractions exponents, by simp⟩

theorem numeral_eq_ok {cut : Fault} {bytes rest : List UInt8} {n : Numeral}
    (h : numeral cut bytes = .ok (n, rest)) :
    ∃ text, SpellsNumeral n text ∧ bytes = text ++ rest := by
  unfold numeral at h
  split at h
  next => cases h
  next b tail =>
    split at h
    next minus =>
      obtain ⟨text, spelled, rfl⟩ := unsigned_eq_ok h
      exact ⟨_, spelled, minus ▸ rfl⟩
    next =>
      obtain ⟨text, spelled, eq⟩ := unsigned_eq_ok h
      exact ⟨text, spelled, eq⟩

/-! ## Scalars -/

theorem scalarAt_eq_ok {b : UInt8} {tail rest : List UInt8} {s : Scalar}
    (h : scalarAt b tail = .ok (s, rest)) :
    ∃ text, SpellsScalar s text ∧ (∀ n, s = .number n → n.inRange = true) ∧
      b :: tail = text ++ rest := by
  unfold scalarAt at h
  split at h
  next quote =>
    obtain ⟨found, read, eq⟩ := map_eq_ok h
    cases eq
    obtain ⟨text, spelled, rfl⟩ := stringBody_eq_ok read
    exact ⟨_, .string spelled, nofun, by simp [quote]⟩
  split at h
  next start =>
    obtain ⟨_, read, eq⟩ := map_eq_ok h
    cases eq
    exact ⟨_, .null, nofun, by rw [start, keyword_eq_ok read, List.cons_append]⟩
  split at h
  next start =>
    obtain ⟨_, read, eq⟩ := map_eq_ok h
    cases eq
    exact ⟨_, .true, nofun, by rw [start, keyword_eq_ok read, List.cons_append]⟩
  split at h
  next start =>
    obtain ⟨_, read, eq⟩ := map_eq_ok h
    cases eq
    exact ⟨_, .false, nofun, by rw [start, keyword_eq_ok read, List.cons_append]⟩
  split at h
  next =>
    obtain ⟨found, read, eq⟩ := map_eq_ok h
    cases eq
    unfold rangedNumeral at read
    split at read
    next => cases read
    next read' =>
      split at read <;> cases read
      next inRange =>
        obtain ⟨text, spelled, eq⟩ := numeral_eq_ok read'
        refine ⟨text, .number spelled, fun n eq => ?_, eq⟩
        cases eq
        exact inRange
  next => cases h

theorem skipScalar_eq_ok {b : UInt8} {tail rest : List UInt8} (h : skipScalar b tail = .ok rest) :
    ∃ text, IsJson text ∧ b :: tail = text ++ rest := by
  unfold skipScalar at h
  split at h
  next quote =>
    obtain ⟨text, body, rfl⟩ := skipString_eq_ok h
    exact ⟨_, .string (.quoted body), by simp [quote]⟩
  split at h
  next start => exact ⟨_, .scalar .null, by rw [start, keyword_eq_ok h, List.cons_append]⟩
  split at h
  next start => exact ⟨_, .scalar .true, by rw [start, keyword_eq_ok h, List.cons_append]⟩
  split at h
  next start => exact ⟨_, .scalar .false, by rw [start, keyword_eq_ok h, List.cons_append]⟩
  split at h
  next =>
    obtain ⟨found, read, eq⟩ := map_eq_ok h
    cases eq
    obtain ⟨text, spelled, eq⟩ := numeral_eq_ok read
    exact ⟨text, .scalar (.number spelled), eq⟩
  next => cases h

end NodeInventory.Json
