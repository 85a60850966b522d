import NodeInventory.Text.Utf8

/-!
# Decoding what is encoded

A character is taken off the front of its encoding whatever follows, so that characters are read
back one by one.
-/

namespace NodeInventory.Text.Utf8

/-! ## Leads and continuation bytes -/

theorem lead_two : ∀ n < 32, 2 ≤ n → Lead.of? (n + 0xC0) = some ⟨1, 0x80, 0xBF, n⟩ := by
  decide

/-- The range of the second byte keeps out shorter encodings and surrogates. -/
theorem lead_three : ∀ n < 16, Lead.of? (n + 0xE0) =
    some ⟨2, if n = 0 then 0xA0 else 0x80, if n = 13 then 0x9F else 0xBF, n⟩ := by
  decide

/-- The range of the second byte keeps out shorter encodings and all that is no code point. -/
theorem lead_four : ∀ n < 5, Lead.of? (n + 0xF0) =
    some ⟨3, if n = 0 then 0x90 else 0x80, if n = 4 then 0x8F else 0xBF, n⟩ := by
  decide

theorem toNat_ofNat {n : Nat} (h : n < 256) : (UInt8.ofNat n).toNat = n := by
  rw [UInt8.toNat_ofNat']
  exact Nat.mod_eq_of_lt h

theorem next_of_lead {b : Nat} {lead : Lead} (small : b < 256) (h : Lead.of? b = some lead)
    (bytes : List UInt8) :
    next (UInt8.ofNat b) bytes =
      ((rest lead.low lead.high lead.more lead.bits bytes).1.map Char.ofNat,
        (rest lead.low lead.high lead.more lead.bits bytes).2) := by
  simp only [next, toNat_ofNat small, h]

/-- A continuation byte adds six bits. -/
theorem rest_cons {low high more code digit : Nat} (small : digit < 64) (ge : low ≤ digit + 0x80)
    (le : digit + 0x80 ≤ high) (bytes : List UInt8) :
    rest low high (more + 1) code (UInt8.ofNat (digit + 0x80) :: bytes) =
      rest 0x80 0xBF more (code * 64 + digit) bytes := by
  have byte := toNat_ofNat (show digit + 0x80 < 256 by omega)
  rw [rest, byte, if_pos ⟨ge, le⟩, show (digit + 0x80) % 64 = digit by omega]

/-! ## Characters -/

/-- A code point is a number below 0x110000 that is no surrogate. -/
theorem toNat_valid (c : Char) : c.toNat < 0xD800 ∨ 0xDFFF < c.toNat ∧ c.toNat < 0x110000 := c.valid

/-- The four lengths of an encoding, its digits being those of the code point to the base 64. -/
theorem utf8EncodeChar_cases (c : Char) :
    (c.toNat < 0x80 ∧ String.utf8EncodeChar c = [UInt8.ofNat c.toNat]) ∨
    (0x80 ≤ c.toNat ∧ c.toNat < 0x800 ∧ String.utf8EncodeChar c =
      [UInt8.ofNat (c.toNat / 64 + 0xC0), UInt8.ofNat (c.toNat % 64 + 0x80)]) ∨
    (0x800 ≤ c.toNat ∧ c.toNat < 0x10000 ∧ String.utf8EncodeChar c =
      [UInt8.ofNat (c.toNat / 4096 + 0xE0), UInt8.ofNat (c.toNat / 64 % 64 + 0x80),
        UInt8.ofNat (c.toNat % 64 + 0x80)]) ∨
    (0x10000 ≤ c.toNat ∧ String.utf8EncodeChar c =
      [UInt8.ofNat (c.toNat / 262144 + 0xF0), UInt8.ofNat (c.toNat / 4096 % 64 + 0x80),
        UInt8.ofNat (c.toNat / 64 % 64 + 0x80), UInt8.ofNat (c.toNat % 64 + 0x80)]) := by
  have valid := toNat_valid c
  have toNat : c.val.toNat = c.toNat := rfl
  simp only [String.utf8EncodeChar, toNat]
  split
  · exact .inl ⟨by omega, rfl⟩
  split
  · refine .inr (.inl ⟨by omega, by omega, ?_⟩)
    rw [Nat.mod_eq_of_lt (show c.toNat / 64 < 32 by omega)]
  split
  · refine .inr (.inr (.inl ⟨by omega, by omega, ?_⟩))
    rw [Nat.mod_eq_of_lt (show c.toNat / 4096 < 16 by omega)]
  · refine .inr (.inr (.inr ⟨by omega, ?_⟩))
    rw [Nat.mod_eq_of_lt (show c.toNat / 262144 < 8 by omega)]

/-- A character is read back from its encoding, whatever follows. -/
theorem units_append (c : Char) (bytes : List UInt8) :
    units (String.utf8EncodeChar c ++ bytes) = some c :: units bytes := by
  have valid := toNat_valid c
  have back : Char.ofNat c.toNat = c := Char.ofNat_toNat c
  rcases utf8EncodeChar_cases c with ⟨lt, eq⟩ | ⟨ge, lt, eq⟩ | ⟨ge, lt, eq⟩ | ⟨ge, eq⟩ <;>
    rw [eq]
  · have lead : Lead.of? c.toNat = some ⟨0, 0x80, 0xBF, c.toNat⟩ := by
      rw [Lead.of?, if_pos lt]
    rw [List.singleton_append, units, next_of_lead (by omega) lead]
    simp only [rest, Option.map_some, back]
  · have lead := lead_two (c.toNat / 64) (by omega) (by omega)
    simp only [List.cons_append, List.nil_append]
    rw [units, next_of_lead (by omega) lead,
      rest_cons (by omega) (by dsimp only; omega) (by dsimp only; omega)]
    have digits : c.toNat / 64 * 64 + c.toNat % 64 = c.toNat := by omega
    simp only [rest, Option.map_some, digits, back]
  · have lead := lead_three (c.toNat / 4096) (by omega)
    simp only [List.cons_append, List.nil_append]
    rw [units, next_of_lead (by omega) lead,
      rest_cons (by omega) (by dsimp only; split <;> omega) (by dsimp only; split <;> omega),
      rest_cons (by omega) (by omega) (by omega)]
    have digits : (c.toNat / 4096 * 64 + c.toNat / 64 % 64) * 64 + c.toNat % 64 = c.toNat := by
      omega
    simp only [rest, Option.map_some, digits, back]
  · have lead := lead_four (c.toNat / 262144) (by omega)
    simp only [List.cons_append, List.nil_append]
    rw [units, next_of_lead (by omega) lead,
      rest_cons (by omega) (by dsimp only; split <;> omega) (by dsimp only; split <;> omega),
      rest_cons (by omega) (by omega) (by omega), rest_cons (by omega) (by omega) (by omega)]
    have digits : ((c.toNat / 262144 * 64 + c.toNat / 4096 % 64) * 64 + c.toNat / 64 % 64) * 64 +
        c.toNat % 64 = c.toNat := by
      omega
    simp only [rest, Option.map_some, digits, back]

/-- Text that is encoded and decoded again is the same text. -/
theorem decode?_encode (s : List Char) : decode? (encode s) = some s := by
  have read : units (encode s) = s.map some := by
    induction s with
    | nil => simp [units]
    | cons c s ih => rw [encode_cons, units_append, ih, List.map_cons]
  rw [decode?, read, List.mapM_map]
  exact List.mapM_pure.trans (congrArg some (List.map_id s))

/-- No byte of an encoding is ASCII but that of an ASCII character. -/
theorem mem_utf8EncodeChar {c : Char} {b : UInt8} (mem : b ∈ String.utf8EncodeChar c) :
    b.toNat = c.toNat ∨ 0x80 ≤ b.toNat := by
  have valid := toNat_valid c
  rcases utf8EncodeChar_cases c with ⟨lt, eq⟩ | ⟨ge, lt, eq⟩ | ⟨ge, lt, eq⟩ | ⟨ge, eq⟩ <;>
    rw [eq] at mem <;> simp only [List.mem_cons, List.not_mem_nil, or_false] at mem
  · rw [mem, toNat_ofNat (by omega)]
    exact .inl rfl
  · rcases mem with rfl | rfl <;> rw [toNat_ofNat (by omega)] <;> omega
  · rcases mem with rfl | rfl | rfl <;> rw [toNat_ofNat (by omega)] <;> omega
  · rcases mem with rfl | rfl | rfl | rfl <;> rw [toNat_ofNat (by omega)] <;> omega

/-! ## Decoding -/

/-- The bytes of a character that follow its first one. -/
def IsContinuation (b : UInt8) : Prop := 0x80 ≤ b.toNat ∧ b.toNat < 0xC0

theorem isContinuation_ofNat {digit : Nat} (small : digit < 64) :
    IsContinuation (UInt8.ofNat (digit + 0x80)) := by
  rw [IsContinuation, toNat_ofNat (by omega)]
  omega

/-- A character starts where a byte is no continuation. -/
theorem utf8EncodeChar_eq_cons (c : Char) :
    ∃ b more, String.utf8EncodeChar c = b :: more ∧ ¬IsContinuation b ∧
      ∀ d ∈ more, IsContinuation d := by
  have valid := toNat_valid c
  have first {n : Nat} (small : n < 256) (outside : n < 0x80 ∨ 0xC0 ≤ n) :
      ¬IsContinuation (UInt8.ofNat n) := by
    rw [IsContinuation, toNat_ofNat small]
    omega
  rcases utf8EncodeChar_cases c with ⟨lt, eq⟩ | ⟨ge, lt, eq⟩ | ⟨ge, lt, eq⟩ | ⟨ge, eq⟩ <;>
    refine ⟨_, _, eq, first (by omega) (by omega), ?_⟩
  · exact List.forall_mem_nil _
  all_goals
    simp only [List.forall_mem_cons, List.not_mem_nil, false_implies, implies_true, and_true]
  · exact isContinuation_ofNat (by omega)
  · exact ⟨isContinuation_ofNat (by omega), isContinuation_ofNat (by omega)⟩
  · exact ⟨isContinuation_ofNat (by omega), isContinuation_ofNat (by omega),
      isContinuation_ofNat (by omega)⟩

/-- Characters in front of two texts of bytes are equal where the texts are. -/
theorem utf8EncodeChar_append_inj {c d : Char} {bytes bytes' : List UInt8}
    (eq : String.utf8EncodeChar c ++ bytes = String.utf8EncodeChar d ++ bytes') :
    c = d ∧ bytes = bytes' := by
  have read := congrArg units eq
  rw [units_append, units_append] at read
  cases (List.cons.inj read).1
  exact ⟨rfl, List.append_cancel_left eq⟩

/-- The four kinds of first bytes. -/
theorem lead_cases {b : Nat} {lead : Lead} (h : Lead.of? b = some lead) :
    (b < 0x80 ∧ lead = ⟨0, 0x80, 0xBF, b⟩) ∨
    (∃ n < 32, 2 ≤ n ∧ b = n + 0xC0 ∧ lead = ⟨1, 0x80, 0xBF, n⟩) ∨
    (∃ n < 16, b = n + 0xE0 ∧
      lead = ⟨2, if n = 0 then 0xA0 else 0x80, if n = 13 then 0x9F else 0xBF, n⟩) ∨
    (∃ n < 5, b = n + 0xF0 ∧
      lead = ⟨3, if n = 0 then 0x90 else 0x80, if n = 4 then 0x8F else 0xBF, n⟩) := by
  by_cases ascii : b < 0x80
  · rw [Lead.of?, if_pos ascii] at h
    exact .inl ⟨ascii, (Option.some.inj h).symm⟩
  by_cases low : b < 0xC2
  · rw [Lead.of?, if_neg ascii, if_pos low] at h
    cases h
  by_cases two : b < 0xE0
  · have eq : b = (b - 0xC0) + 0xC0 := by omega
    rw [eq, lead_two (b - 0xC0) (by omega) (by omega)] at h
    exact .inr (.inl ⟨b - 0xC0, by omega, by omega, eq, (Option.some.inj h).symm⟩)
  by_cases three : b < 0xF0
  · have eq : b = (b - 0xE0) + 0xE0 := by omega
    rw [eq, lead_three (b - 0xE0) (by omega)] at h
    exact .inr (.inr (.inl ⟨b - 0xE0, by omega, eq, (Option.some.inj h).symm⟩))
  by_cases four : b < 0xF5
  · have eq : b = (b - 0xF0) + 0xF0 := by omega
    rw [eq, lead_four (b - 0xF0) (by omega)] at h
    exact .inr (.inr (.inr ⟨b - 0xF0, by omega, eq, (Option.some.inj h).symm⟩))
  · have none : Lead.of? b = none := by
      unfold Lead.of?
      repeat rw [if_neg (by omega)]
    rw [none] at h
    cases h

theorem rest_succ_eq_some {low high more code n : Nat} {bytes tail : List UInt8}
    (ge : 0x80 ≤ low) (le : high ≤ 0xBF)
    (h : rest low high (more + 1) code bytes = (some n, tail)) :
    ∃ digit bytes', bytes = UInt8.ofNat (digit + 0x80) :: bytes' ∧ low ≤ digit + 0x80 ∧
      digit + 0x80 ≤ high ∧ rest 0x80 0xBF more (code * 64 + digit) bytes' = (some n, tail) := by
  cases bytes with
  | nil => cases h
  | cons b bytes =>
      rw [rest] at h
      split at h
      next within =>
        have eq : b.toNat % 64 + 0x80 = b.toNat := by omega
        refine ⟨b.toNat % 64, bytes, ?_, by omega, by omega, h⟩
        rw [eq, UInt8.ofNat_toNat]
      next => cases h

theorem rest_zero_eq_some {low high code n : Nat} {bytes tail : List UInt8}
    (h : rest low high 0 code bytes = (some n, tail)) : n = code ∧ bytes = tail := by
  cases h
  exact ⟨rfl, rfl⟩

theorem toNat_charOfNat {n : Nat} (valid : n < 0xD800 ∨ 0xDFFF < n ∧ n < 0x110000) :
    (Char.ofNat n).toNat = n := by
  rw [Char.ofNat, dif_pos valid]
  rfl

section Digits

variable {m d e f : Nat}

/-- The encoding of a code point that is given by its digits to the base 64. -/
theorem utf8EncodeChar_two (ge : 2 ≤ m) (lt : m < 32) (d_lt : d < 64) :
    String.utf8EncodeChar (Char.ofNat (m * 64 + d)) =
      [UInt8.ofNat (m + 0xC0), UInt8.ofNat (d + 0x80)] := by
  have encoded := utf8EncodeChar_cases (Char.ofNat (m * 64 + d))
  rw [toNat_charOfNat (by omega)] at encoded
  rcases encoded with ⟨lt, -⟩ | ⟨-, -, eq⟩ | ⟨ge, -⟩ | ⟨ge, -⟩
  · omega
  · rw [eq, show (m * 64 + d) / 64 = m by omega, show (m * 64 + d) % 64 = d by omega]
  all_goals omega

theorem utf8EncodeChar_three (lt : m < 16) (d_lt : d < 64) (e_lt : e < 64)
    (long : m = 0 → 32 ≤ d) (no_surrogate : m = 13 → d < 32) :
    String.utf8EncodeChar (Char.ofNat ((m * 64 + d) * 64 + e)) =
      [UInt8.ofNat (m + 0xE0), UInt8.ofNat (d + 0x80), UInt8.ofNat (e + 0x80)] := by
  have encoded := utf8EncodeChar_cases (Char.ofNat ((m * 64 + d) * 64 + e))
  rw [toNat_charOfNat (by omega)] at encoded
  rcases encoded with ⟨lt, -⟩ | ⟨-, lt, -⟩ | ⟨-, -, eq⟩ | ⟨ge, -⟩
  · omega
  · omega
  · rw [eq, show ((m * 64 + d) * 64 + e) / 4096 = m by omega,
      show ((m * 64 + d) * 64 + e) / 64 % 64 = d by omega,
      show ((m * 64 + d) * 64 + e) % 64 = e by omega]
  · omega

theorem utf8EncodeChar_four (lt : m < 5) (d_lt : d < 64) (e_lt : e < 64) (f_lt : f < 64)
    (long : m = 0 → 16 ≤ d) (in_range : m = 4 → d < 16) :
    String.utf8EncodeChar (Char.ofNat (((m * 64 + d) * 64 + e) * 64 + f)) =
      [UInt8.ofNat (m + 0xF0), UInt8.ofNat (d + 0x80), UInt8.ofNat (e + 0x80),
        UInt8.ofNat (f + 0x80)] := by
  have encoded := utf8EncodeChar_cases (Char.ofNat (((m * 64 + d) * 64 + e) * 64 + f))
  rw [toNat_charOfNat (by omega)] at encoded
  rcases encoded with ⟨lt, -⟩ | ⟨-, lt, -⟩ | ⟨-, lt, -⟩ | ⟨-, eq⟩
  · omega
  · omega
  · omega
  · rw [eq, show (((m * 64 + d) * 64 + e) * 64 + f) / 262144 = m by omega,
      show (((m * 64 + d) * 64 + e) * 64 + f) / 4096 % 64 = d by omega,
      show (((m * 64 + d) * 64 + e) * 64 + f) / 64 % 64 = e by omega,
      show (((m * 64 + d) * 64 + e) * 64 + f) % 64 = f by omega]

end Digits

/-- A character is read off its own encoding. -/
theorem next_eq_some {b : UInt8} {bytes tail : List UInt8} {c : Char}
    (h : next b bytes = (some c, tail)) : b :: bytes = String.utf8EncodeChar c ++ tail := by
  rw [next] at h
  split at h
  next => cases h
  next lead announced =>
  obtain ⟨found, left⟩ := Prod.mk.inj h
  obtain ⟨n, code, rfl⟩ := Option.map_eq_some_iff.1 found
  have read : rest lead.low lead.high lead.more lead.bits bytes = (some n, tail) :=
    Prod.ext code left
  have byte : b = UInt8.ofNat b.toNat := UInt8.ofNat_toNat.symm
  rcases lead_cases announced with ⟨lt, rfl⟩ | ⟨m, lt, ge, eq, rfl⟩ | ⟨m, lt, eq, rfl⟩ |
    ⟨m, lt, eq, rfl⟩ <;> dsimp only at read
  · obtain ⟨rfl, rfl⟩ := rest_zero_eq_some read
    have encoded := utf8EncodeChar_cases (Char.ofNat b.toNat)
    rw [toNat_charOfNat (by omega)] at encoded
    rcases encoded with ⟨-, eq⟩ | ⟨ge, -⟩ | ⟨ge, -⟩ | ⟨ge, -⟩
    · rw [eq, ← byte, List.singleton_append]
    all_goals omega
  · obtain ⟨d, _, rfl, low, high, read⟩ := rest_succ_eq_some (by omega) (by omega) read
    obtain ⟨rfl, rfl⟩ := rest_zero_eq_some read
    rw [utf8EncodeChar_two ge lt (by omega), byte, eq]
    rfl
  · obtain ⟨d, _, rfl, low, high, read⟩ :=
      rest_succ_eq_some (by split <;> omega) (by split <;> omega) read
    obtain ⟨e, _, rfl, low', high', read⟩ := rest_succ_eq_some (by omega) (by omega) read
    obtain ⟨rfl, rfl⟩ := rest_zero_eq_some read
    rw [utf8EncodeChar_three lt (by split at high <;> omega) (by omega)
      (by rintro rfl; simpa using low) (by rintro rfl; simp at high; omega), byte, eq]
    rfl
  · obtain ⟨d, _, rfl, low, high, read⟩ :=
      rest_succ_eq_some (by split <;> omega) (by split <;> omega) read
    obtain ⟨e, _, rfl, low', high', read⟩ := rest_succ_eq_some (by omega) (by omega) read
    obtain ⟨f, _, rfl, low'', high'', read⟩ := rest_succ_eq_some (by omega) (by omega) read
    obtain ⟨rfl, rfl⟩ := rest_zero_eq_some read
    rw [utf8EncodeChar_four lt (by split at high <;> omega) (by omega) (by omega)
      (by rintro rfl; simpa using low) (by rintro rfl; simp at high; omega), byte, eq]
    rfl

theorem eq_map_some_of_mapM {α : Type _} {found : List (Option α)} {s : List α}
    (h : found.mapM id = some s) : found = s.map some := by
  induction found generalizing s with
  | nil =>
      cases h
      rfl
  | cons unit found ih =>
      simp only [List.mapM_cons, Option.pure_def, Option.bind_eq_bind, Option.bind_eq_some_iff,
        Option.some.injEq, id] at h
      obtain ⟨a, rfl, later, read, rfl⟩ := h
      rw [ih read, List.map_cons]

/-- Text that is decoded and encoded again is the same text. -/
theorem eq_encode_of_decode? {bytes : List UInt8} {s : List Char} (h : decode? bytes = some s) :
    bytes = encode s := by
  have all_read := eq_map_some_of_mapM h
  clear h
  fun_induction units bytes generalizing s with
  | case1 =>
      cases List.map_eq_nil_iff.1 all_read.symm
      rfl
  | case2 b bytes ih =>
      cases s with
      | nil => cases all_read
      | cons c s =>
          obtain ⟨first, later⟩ := List.cons.inj all_read
          rw [encode_cons, ← ih later]
          exact next_eq_some (Prod.ext first rfl)

end NodeInventory.Text.Utf8
