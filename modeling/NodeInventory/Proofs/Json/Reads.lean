import NodeInventory.Proofs.Json.Passing

/-!
# What readers read

`Reader.Reads` says that a reader reads a relation between values and texts: every text that spells
a value is read as this value, and where a value is read there is a text that spells it.  The
relation of a reader that is built from others is built from theirs.
-/

namespace NodeInventory.Json

/-- Behind a text that ends in a numeral there has to be something that ends it. -/
structure Reader.Reads {α : Type} (reader : Reader α) (spells : α → List UInt8 → Prop) : Prop where
  opens : ∀ {a text}, spells a text → Opens text
  complete : ∀ {a blanks text rest}, Blanks blanks → spells a text → Delimited rest →
    reader.run (blanks ++ (text ++ rest)) = .ok (a, rest)
  sound : ∀ {a bytes rest}, reader.run bytes = .ok (a, rest) →
    ∃ blanks text, Blanks blanks ∧ spells a text ∧ bytes = blanks ++ (text ++ rest)

theorem delimited_blanks {blanks : List UInt8} (h : Blanks blanks) : Delimited blanks := by
  cases blanks with
  | nil => exact delimited_nil
  | cons b blanks => exact avoids_cons (not_isNumeric_of_isBlank (h b List.mem_cons_self)) blanks

/-- A document is one value with nothing but blanks around it. -/
theorem document_eq_ok_iff {α : Type} {reader : Reader α} {spells : α → List UInt8 → Prop}
    (reads : reader.Reads spells) {bytes : List UInt8} {a : α} :
    document reader bytes = .ok a ↔ ∃ before text behind, Blanks before ∧ spells a text ∧
      Blanks behind ∧ bytes = before ++ (text ++ behind) := by
  constructor
  · intro h
    unfold document at h
    split at h
    next => cases h
    next read =>
      split at h <;> cases h
      next ended =>
        obtain ⟨before, text, blank, spelled, eq⟩ := reads.sound read
        exact ⟨before, text, _, blank, spelled, skipBlank_eq_nil_iff.1 ended, eq⟩
  · rintro ⟨before, text, behind, blank, spelled, blank', rfl⟩
    rw [document, reads.complete blank spelled (delimited_blanks blank')]
    exact if_pos (skipBlank_eq_nil_iff.2 blank')

/-! ## Between brackets -/

theorem turn_item {bracket : Bracket} {blanks text : List UInt8} (before : Blanks blanks)
    (opens : Opens text) (rest : List UInt8) :
    turn bracket.close false (blanks ++ (text ++ rest)) = .ok (.item (text ++ rest)) := by
  obtain ⟨b, tail, rfl, solid, no_close⟩ := opens
  rw [List.cons_append, turn, skipBlank_append before solid]
  simp only [if_neg (no_close bracket), if_true]

theorem turn_eq_closed {close : UInt8} {more : Bool} {bytes rest : List UInt8}
    (h : turn close more bytes = .ok (.closed rest)) :
    ∃ blanks, Blanks blanks ∧ bytes = blanks ++ close :: rest := by
  unfold turn at h
  split at h
  next => cases h
  next found =>
    obtain ⟨blanks, before, -, rfl⟩ := skipBlank_eq_cons found
    split at h
    next same =>
      cases h
      exact ⟨blanks, before, same ▸ rfl⟩
    repeat' split at h
    all_goals cases h

theorem turn_eq_item {close : UInt8} {more : Bool} {bytes start : List UInt8}
    (h : turn close more bytes = .ok (.item start)) :
    ∃ blanks, Blanks blanks ∧
      bytes = blanks ++ (if more then ascii ',' :: start else start) := by
  unfold turn at h
  split at h
  next => cases h
  next found =>
    obtain ⟨blanks, before, -, rfl⟩ := skipBlank_eq_cons found
    repeat' split at h
    all_goals cases h
    next none => exact ⟨blanks, before, by simp [none]⟩
    next some comma => exact ⟨blanks, before, by simp [some, comma]⟩

/-- Going over a list one by one leads from one state to another. -/
inductive Chain {σ γ : Type} (step : σ → σ → γ → Prop) : σ → List γ → σ → Prop
  | nil {state : σ} : Chain step state [] state
  | cons {state next final : σ} {part : γ} {parts : List γ} :
      step state next part → Chain step next parts final → Chain step state (part :: parts) final

theorem chain_comp_iff {σ γ δ : Type} {step : σ → σ → γ → Prop} {spells : γ → δ → Prop}
    {state final : σ} {pieces : List δ} :
    Chain (fun state next piece => ∃ part, step state next part ∧ spells part piece)
        state pieces final ↔
      ∃ parts, Chain step state parts final ∧ List.Forall₂ spells parts pieces := by
  constructor
  · intro chain
    induction chain with
    | nil => exact ⟨[], .nil, .nil⟩
    | cons first _ ih =>
        obtain ⟨part, first, spelled⟩ := first
        obtain ⟨parts, later, all⟩ := ih
        exact ⟨part :: parts, .cons first later, .cons spelled all⟩
  · rintro ⟨parts, chain, all⟩
    induction chain generalizing pieces with
    | nil =>
        cases all
        exact .nil
    | cons first _ ih =>
        cases all with
        | cons spelled all => exact .cons ⟨_, first, spelled⟩ (ih all)

/-- What is gathered, the last first. -/
theorem chain_gather_iff {α : Type} {before found final : List α} :
    Chain (fun before next a => a :: before = next) before found final ↔
      final = found.reverse ++ before := by
  constructor
  · intro chain
    induction chain with
    | nil => rfl
    | cons first _ ih =>
        rw [ih, ← first, List.reverse_cons, List.append_assoc, List.singleton_append]
  · rintro rfl
    induction found generalizing before with
    | nil => exact .nil
    | cons a found ih =>
        rw [List.reverse_cons, List.append_assoc]
        exact .cons rfl ih

section Items

variable {σ : Type} {item : σ → Reader σ} {step : σ → σ → List UInt8 → Prop}
variable {bracket : Bracket} {more : Bool} {state final : σ}

theorem items_of_chain (reads : ∀ state, (item state).Reads (step state))
    {pieces : List (List UInt8)} (chain : Chain step state pieces final) {text : List UInt8}
    (enclosed : Enclosed bracket more pieces text) (rest : List UInt8) :
    items bracket.close item more state (text ++ rest) = .ok (final, rest) := by
  induction chain generalizing more text with
  | nil =>
      cases enclosed with
      | close before =>
          rw [List.append_assoc, List.singleton_append]
          exact items_of_closed (turn_close before rest)
  | cons first _ ih =>
      cases enclosed with
      | first before enclosed =>
          have read := (reads _).complete blanks_nil first (delimited_enclosed enclosed rest)
          rw [List.append_assoc, List.append_assoc,
            items_of_item (turn_item before ((reads _).opens first) _) read]
          exact ih enclosed
      | next before behind enclosed =>
          have read := (reads _).complete behind first (delimited_enclosed enclosed rest)
          rw [List.append_assoc, List.cons_append, List.append_assoc, List.append_assoc,
            items_of_item (turn_next before _) read]
          exact ih enclosed

theorem chain_of_items (reads : ∀ state, (item state).Reads (step state))
    {bytes rest : List UInt8}
    (h : items bracket.close item more state bytes = .ok (final, rest)) :
    ∃ pieces text, Enclosed bracket more pieces text ∧ Chain step state pieces final ∧
      bytes = text ++ rest := by
  fun_induction items bracket.close item more state bytes with
  | case1 => cases h
  | case2 more state bytes tail turned =>
      cases h
      obtain ⟨blanks, before, rfl⟩ := turn_eq_closed turned
      exact ⟨[], _, .close before, .nil, by simp⟩
  | case3 => cases h
  | case4 more state bytes start turned next tail read ih =>
      obtain ⟨pieces, text, enclosed, chain, rfl⟩ := ih h
      obtain ⟨behind, piece, blank, first, rfl⟩ := (reads state).sound read
      obtain ⟨blanks, before, rfl⟩ := turn_eq_item turned
      cases more with
      | false =>
          exact ⟨piece :: pieces, _, .first (blanks_append before blank) enclosed,
            .cons first chain, by simp⟩
      | true =>
          exact ⟨piece :: pieces, _, .next before blank enclosed, .cons first chain, by simp⟩

end Items

/-- A key and its colon in front of a value. -/
theorem key_mark_of_isMember {name : String} {value piece blanks : List UInt8}
    (before : Blanks blanks) (h : IsMember (SpellsString name) value piece) (rest : List UInt8) :
    ∃ colon behind, Blanks behind ∧ key (blanks ++ (piece ++ rest)) = .ok (name, colon) ∧
      mark (ascii ':') colon = .ok (behind ++ (value ++ rest)) := by
  cases h with
  | @parts _ inner behind spelled blank blank' =>
      refine ⟨_, behind, blank', ?_, mark_append blank (by decide) _⟩
      rw [List.append_assoc, key_append spelled before, List.append_assoc, List.cons_append,
        List.append_assoc]

theorem isMember_of_key_mark {name : String} {bytes colon behind value rest : List UInt8}
    (named : key bytes = .ok (name, colon))
    (marked : mark (ascii ':') colon = .ok (behind ++ (value ++ rest))) (blank : Blanks behind) :
    ∃ blanks piece, Blanks blanks ∧ IsMember (SpellsString name) value piece ∧
      bytes = blanks ++ (piece ++ rest) := by
  obtain ⟨blanks, text, before, spelled, rfl⟩ := key_eq_ok named
  obtain ⟨inner, blank', rfl⟩ := mark_eq_ok marked
  exact ⟨blanks, _, before, .parts spelled blank' blank, by simp⟩

/-! ## Combinators -/

namespace Reader

variable {α β : Type} {reader : Reader α} {spells : α → List UInt8 → Prop}

theorem Reads.map (reads : reader.Reads spells) (f : α → β) :
    (reader.map f).Reads fun b text => ∃ a, f a = b ∧ spells a text where
  opens := fun ⟨_, _, spelled⟩ => reads.opens spelled
  complete := by
    rintro _ blanks text rest before ⟨a, rfl, spelled⟩ delimited
    simp only [Reader.map, reads.complete before spelled delimited, Except.map]
  sound := by
    intro b bytes rest h
    obtain ⟨⟨a, rest⟩, read, eq⟩ := map_eq_ok h
    cases eq
    obtain ⟨blanks, text, before, spelled, eq⟩ := reads.sound read
    exact ⟨blanks, text, before, ⟨a, rfl, spelled⟩, eq⟩

theorem Reads.congr (reads : reader.Reads spells) {spells' : α → List UInt8 → Prop}
    (h : ∀ a text, spells a text ↔ spells' a text) : reader.Reads spells' := by
  rwa [show spells' = spells from funext₂ fun a text => propext (h a text).symm]

theorem listOf_eq_ok_iff (reads : reader.Reads spells) {bracket : Bracket} {bytes rest : List UInt8}
    {found : List α} :
    listOf bracket.close reader bytes = .ok (found, rest) ↔
      ∃ pieces text, Enclosed bracket false pieces text ∧ List.Forall₂ spells found pieces ∧
        bytes = text ++ rest := by
  have gathers := fun before => reads.map (· :: before)
  constructor
  · intro h
    obtain ⟨⟨final, rest⟩, read, eq⟩ := map_eq_ok h
    cases eq
    obtain ⟨pieces, text, enclosed, chain, eq⟩ := chain_of_items gathers read
    obtain ⟨found, gathered, all⟩ := chain_comp_iff.1 chain
    refine ⟨pieces, text, enclosed, ?_, eq⟩
    rw [chain_gather_iff.1 gathered, List.append_nil, List.reverse_reverse]
    exact all
  · rintro ⟨pieces, text, enclosed, all, rfl⟩
    have gathered : Chain (fun before next a => a :: before = next) [] found
        (found.reverse ++ []) := chain_gather_iff.2 rfl
    rw [listOf, items_of_chain gathers (chain_comp_iff.2 ⟨found, gathered, all⟩) enclosed]
    simp only [Except.map, List.append_nil, List.reverse_reverse]

/-- A key and its value. -/
theorem Reads.member (reads : reader.Reads spells) :
    (Json.member reader).Reads fun entry piece => ∃ member : String × List UInt8,
      (entry.1 = member.1 ∧ spells entry.2 member.2) ∧
        IsMember (SpellsString member.1) member.2 piece where
  opens := fun ⟨_, _, isMember⟩ => (isMember.imp SpellsString.isString).opens
  complete := by
    rintro ⟨name, a⟩ blanks piece rest before ⟨⟨_, value⟩, ⟨rfl, spelled⟩, isMember⟩ delimited
    obtain ⟨colon, behind, blank, named, marked⟩ := key_mark_of_isMember before isMember rest
    simp only [Json.member, memberOf, named, marked, reads.complete blank spelled delimited,
      Except.map]
  sound := by
    rintro ⟨name, a⟩ bytes rest h
    unfold Json.member memberOf at h
    dsimp only at h
    split at h
    next => cases h
    next named =>
    split at h
    next => cases h
    next marked =>
      obtain ⟨⟨a, rest⟩, read, eq⟩ := map_eq_ok h
      cases eq
      obtain ⟨behind, value, blank, spelled, rfl⟩ := reads.sound read
      obtain ⟨blanks, piece, before, isMember, eq⟩ := isMember_of_key_mark named marked blank
      exact ⟨blanks, piece, before, ⟨(name, value), ⟨rfl, spelled⟩, isMember⟩, eq⟩

end Reader

end NodeInventory.Json
