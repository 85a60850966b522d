import NodeInventory.Proofs.Json.Reads

/-!
# What readers of wanted types read

Texts, octets, lists and dictionaries: each reader with the spellings of the values that it reads.
-/

namespace NodeInventory.Json

/-! ## Scalars -/

/-- What is accepted is a scalar, or what stands behind an opening byte. -/
theorem readTyped_eq_ok {α : Type} {accept : Scalar → Option α}
    {inside : UInt8 → Option (List UInt8 → Except Fault (α × List UInt8))} {bytes rest : List UInt8}
    {a : α} (h : readTyped accept inside bytes = .ok (a, rest)) :
    ∃ blanks, Blanks blanks ∧
      ((∃ b tail read, inside b = some read ∧ read tail = .ok (a, rest) ∧
          bytes = blanks ++ b :: tail) ∨
        ∃ s text, accept s = some a ∧ SpellsScalar s text ∧
          (∀ n, s = .number n → n.inRange = true) ∧ bytes = blanks ++ (text ++ rest)) := by
  unfold readTyped at h
  split at h
  next => cases h
  next b tail found =>
    obtain ⟨blanks, before, -, rfl⟩ := skipBlank_eq_cons found
    refine ⟨blanks, before, ?_⟩
    split at h
    next read opened => exact .inl ⟨b, tail, read, opened, h, rfl⟩
    split at h
    next => cases h
    split at h
    next => cases h
    next s rest read =>
      split at h <;> cases h
      next accepts =>
        obtain ⟨text, spelled, inRange, eq⟩ := scalarAt_eq_ok read
        exact .inr ⟨s, text, accepts, spelled, inRange, by rw [eq]⟩

/-- A natural number of eight bits in its digits alone, without a leading zero. -/
structure SpellsOctet (n : UInt8) (text : List UInt8) : Prop where
  digits : Digits text
  leading : text.head? = some (ascii '0') → text = [ascii '0']
  value : valueOf text = n.toNat

theorem Numeral.accumulate_eq {significand : Nat} {digits : List UInt8}
    (fits : digits.foldl (fun n b => n * 10 + digitValue b) significand < UInt64.size) :
    accumulate significand digits =
      (digits.foldl (fun n b => n * 10 + digitValue b) significand, []) := by
  have grows : ∀ (digits : List UInt8) (n : Nat),
      n ≤ digits.foldl (fun n b => n * 10 + digitValue b) n := by
    intro digits
    induction digits with
    | nil => exact fun n => Nat.le_refl n
    | cons b digits ih =>
        intro n
        have := ih (n * 10 + digitValue b)
        rw [List.foldl_cons]
        omega
  induction digits generalizing significand with
  | nil => rfl
  | cons b digits ih =>
      rw [List.foldl_cons] at fits
      rw [accumulate]
      simp only [if_pos (Nat.lt_of_le_of_lt (grows digits _) fits)]
      exact ih fits

theorem SpellsOctet.spellsNumeral {n : UInt8} {text : List UInt8} (h : SpellsOctet n text) :
    SpellsNumeral ⟨false, text, [], none⟩ text := by
  have spelled : SpellsNumeral ⟨false, text, [], none⟩ ([] ++ (text ++ ([] ++ []))) :=
    .parts h.digits h.leading .none .none
  rwa [List.nil_append, List.append_nil, List.append_nil] at spelled

theorem SpellsOctet.of_natural? {n : Numeral} {value : Nat} {text : List UInt8}
    (spelled : SpellsNumeral n text) (natural : n.natural? = some value) (fits : value ≤ 255) :
    SpellsOctet (UInt8.ofNat value) text := by
  cases spelled with
  | @parts negative whole fraction fractionText exponentText exponent all leading point power =>
      unfold Numeral.natural? at natural
      split at natural <;> cases natural
      next plain =>
        obtain ⟨unsigned, no_fraction, no_exponent⟩ := plain
        dsimp only at unsigned no_fraction no_exponent
        subst unsigned no_fraction no_exponent
        cases power
        cases point with
        | some digits => exact absurd rfl digits.1
        | none =>
            rw [if_neg Bool.false_ne_true, List.nil_append, List.append_nil, List.append_nil]
            exact ⟨all, leading, (UInt8.toNat_ofNat_of_lt' (Nat.lt_succ_of_le fits)).symm⟩

theorem SpellsOctet.accepted {n : UInt8} {text : List UInt8} (h : SpellsOctet n text) :
    Numeral.natural? ⟨false, text, [], none⟩ = some n.toNat ∧
      Numeral.inRange ⟨false, text, [], none⟩ = true := by
  constructor
  · rw [Numeral.natural?, if_pos ⟨rfl, rfl, rfl⟩, h.value]
  · have fits : valueOf text < UInt64.size := by
      rw [h.value]
      exact Nat.lt_trans n.toNat_lt (by decide)
    simp only [Numeral.inRange, Numeral.accumulate_eq fits, and_self, if_true]

theorem SpellsOctet.isJson {n : UInt8} {text : List UInt8} (h : SpellsOctet n text) :
    IsJson text := .scalar (.number h.spellsNumeral)

theorem SpellsString.isJson {s : String} {text : List UInt8} (h : SpellsString s text) :
    IsJson text := .string h.isString

namespace Reader

variable {α : Type} {reader : Reader α} {spells : α → List UInt8 → Prop}

/-- A reader that accepts scalars only. -/
theorem reads_of_accept {accept : Scalar → Option α}
    (run_eq : reader.run = readTyped accept fun _ => none)
    (accepted : ∀ {a text}, spells a text → ∃ s, accept s = some a ∧ SpellsScalar s text ∧
      ∀ n, s = .number n → n.inRange = true)
    (spelled : ∀ {s a text}, accept s = some a → SpellsScalar s text → spells a text) :
    reader.Reads spells where
  opens h := by
    obtain ⟨s, -, scalar, -⟩ := accepted h
    exact (IsJson.scalar scalar).opens
  complete {a blanks text rest} before h delimited := by
    obtain ⟨s, accepts, scalar, inRange⟩ := accepted h
    rw [run_eq]
    exact readTyped_scalar (fun _ _ => rfl) accepts before scalar inRange delimited
  sound {a bytes rest} h := by
    rw [run_eq] at h
    obtain ⟨blanks, before, ⟨_, _, _, opened, -⟩ | ⟨s, text, accepts, scalar, -, eq⟩⟩ :=
      readTyped_eq_ok h
    · cases opened
    · exact ⟨blanks, text, before, spelled accepts scalar, eq⟩

theorem reads_text : text.Reads SpellsString := by
  refine reads_of_accept rfl ?accepted ?spelled
  case accepted =>
    intro s text h
    exact ⟨.string s, rfl, .string h, fun _ eq => by cases eq⟩
  case spelled =>
    intro s a text accepts scalar
    cases scalar with
    | string h =>
        cases accepts
        exact h
    | _ => cases accepts

theorem reads_octet : octet.Reads SpellsOctet := by
  refine reads_of_accept rfl ?accepted ?spelled
  case accepted =>
    intro n text h
    obtain ⟨natural, inRange⟩ := h.accepted
    have le : n.toNat ≤ 255 := Nat.le_of_lt_succ n.toNat_lt
    refine ⟨_, ?_, .number h.spellsNumeral, fun _ eq => by cases eq; exact inRange⟩
    simp only [natural, Option.bind_some, if_pos le, UInt8.ofNat_toNat]
  case spelled =>
    intro s a text accepts scalar
    cases scalar with
    | number numeral =>
        obtain ⟨value, natural, accepts⟩ := Option.bind_eq_some_iff.1 accepts
        split at accepts <;> cases accepts
        next fits => exact .of_natural? numeral natural fits
    | _ => cases accepts

theorem bracketed_eq_ok {opening : UInt8} {body : List UInt8 → Except Fault (α × List UInt8)}
    (shorter : ∀ {bytes a rest}, body bytes = .ok (a, rest) → rest.length < bytes.length)
    {bytes rest : List UInt8} {a : α}
    (h : (bracketed opening body shorter).run bytes = .ok (a, rest)) :
    ∃ blanks tail, Blanks blanks ∧ body tail = .ok (a, rest) ∧
      bytes = blanks ++ opening :: tail := by
  have h : readTyped (fun _ => none) (fun b => if b = opening then some body else none) bytes =
    .ok (a, rest) := h
  obtain ⟨blanks, before, ⟨b, tail, read, opened, found, eq⟩ | ⟨_, _, accepts, -⟩⟩ :=
    readTyped_eq_ok h
  · split at opened <;> cases opened
    next same => exact ⟨blanks, tail, before, found, same ▸ eq⟩
  · cases accepts

theorem Reads.list (reads : reader.Reads spells) :
    (Reader.list reader).Reads fun found text =>
      ∃ items, IsArray items text ∧ List.Forall₂ spells found items where
  opens := fun ⟨_, isArray, _⟩ => isArray.opens
  complete := by
    rintro found blanks _ rest before ⟨items, @⟨inner, enclosed⟩, all⟩ -
    have read : listOf Bracket.array.close reader (inner ++ rest) = .ok (found, rest) :=
      (listOf_eq_ok_iff reads).2 ⟨items, inner, enclosed, all, rfl⟩
    exact (bracketed_append length_lt_of_listOf (by decide) before _).trans read
  sound {found bytes rest} h := by
    obtain ⟨blanks, tail, before, read, rfl⟩ := bracketed_eq_ok length_lt_of_listOf h
    have read : listOf Bracket.array.close reader tail = .ok (found, rest) := read
    obtain ⟨items, text, enclosed, all, rfl⟩ := (listOf_eq_ok_iff reads).1 read
    exact ⟨blanks, _, before, ⟨items, .brackets enclosed, all⟩, rfl⟩

theorem Reads.dictionary (reads : reader.Reads spells) :
    (Reader.dictionary reader).Reads fun entries text => ∃ members, IsObject members text ∧
      List.Forall₂ (fun entry member => entry.1 = member.1 ∧ spells entry.2 member.2)
        entries members where
  opens := fun ⟨_, isObject, _⟩ => isObject.opens
  complete := by
    rintro found blanks _ rest before ⟨members, @⟨pieces, inner, enclosed, keyed⟩, all⟩ -
    have read : listOf Bracket.object.close (Json.member reader) (inner ++ rest) =
        .ok (found, rest) := (listOf_eq_ok_iff reads.member).2
      ⟨pieces, inner, enclosed, forall₂_comp_iff.2 ⟨members, all, keyed⟩, rfl⟩
    exact (bracketed_append length_lt_of_listOf (by decide) before _).trans read
  sound {found bytes rest} h := by
    obtain ⟨blanks, tail, before, read, rfl⟩ := bracketed_eq_ok length_lt_of_listOf h
    have read : listOf Bracket.object.close (Json.member reader) tail = .ok (found, rest) := read
    obtain ⟨pieces, text, enclosed, all, rfl⟩ := (listOf_eq_ok_iff reads.member).1 read
    obtain ⟨members, all, keyed⟩ := forall₂_comp_iff.1 all
    exact ⟨blanks, _, before, ⟨members, .brackets enclosed keyed, all⟩, rfl⟩

end Reader

end NodeInventory.Json
