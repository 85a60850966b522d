import NodeInventory.Proofs.Json.Typed

/-!
# Values read and looked up

The reader of values reads exactly what the grammar spells within two limits, one on the depth of
its brackets and one on its numbers.  A key of an object leads to the last of its members.
-/

namespace NodeInventory

namespace Json

/-- A value of at most `depth` nested brackets, all of whose numbers fit. -/
inductive Within (fits : Numeral → Prop) : Nat → Json → Prop
  | scalar {depth : Nat} {v : Json} {s : Scalar} : v = ofScalar s →
      (∀ n, s = .number n → fits n) → Within fits depth v
  | array {depth : Nat} {items : List Json} : (∀ item ∈ items, Within fits depth item) →
      Within fits (depth + 1) (.array items)
  | object {depth : Nat} {members : List (String × Json)} :
      (∀ member ∈ members, Within fits depth member.2) → Within fits (depth + 1) (.object members)

/-- What the last member of an object with the given key holds. -/
inductive LastMember (name : String) (held : Json) : Json → Prop
  | last {before behind : List (String × Json)} : (∀ later ∈ behind, later.1 ≠ name) →
      LastMember name held (.object (before ++ (name, held) :: behind))

/-- The text spells the value, with nothing but blanks around it. -/
def IsSpelledBy (v : Json) (text : String) : Prop :=
  ∃ before value behind, Blanks before ∧ Spells (.part (.value v)) value ∧ Blanks behind ∧
    Text.Utf8.encode text.toList = before ++ (value ++ behind)

/-! ## Brackets taken off -/

theorem spells_rest_iff {bracket : Bracket} {more : Bool} {parts : List Part} {text : List UInt8} :
    Spells (.rest bracket more parts) text ↔ ∃ pieces, Enclosed bracket more pieces text ∧
      List.Forall₂ (fun part piece => Spells (.part part) piece) parts pieces := by
  constructor
  · intro spelled
    induction parts generalizing more text with
    | nil =>
        cases spelled with
        | close before => exact ⟨[], .close before, .nil⟩
    | cons part parts ih =>
        cases spelled with
        | first before first rest =>
            obtain ⟨pieces, enclosed, all⟩ := ih rest
            exact ⟨_, .first before enclosed, .cons first all⟩
        | next before behind first rest =>
            obtain ⟨pieces, enclosed, all⟩ := ih rest
            exact ⟨_, .next before behind enclosed, .cons first all⟩
  · rintro ⟨pieces, enclosed, all⟩
    induction enclosed generalizing parts with
    | close before =>
        cases all
        exact .close before
    | first before _ ih =>
        cases all with
        | cons first all => exact .first before first (ih all)
    | next before behind _ ih =>
        cases all with
        | cons first all => exact .next before behind first (ih all)

theorem spells_member_iff {name : String} {v : Json} {piece : List UInt8} :
    Spells (.part (.member name v)) piece ↔
      ∃ value, Spells (.part (.value v)) value ∧ IsMember (SpellsString name) value piece := by
  constructor
  · intro spelled
    cases spelled with
    | member key before behind spelled => exact ⟨_, spelled, .parts key before behind⟩
  · rintro ⟨value, spelled, key, before, behind⟩
    exact .member key before behind spelled

theorem spells_ofScalar_iff {s : Scalar} {text : List UInt8} :
    Spells (.part (.value (ofScalar s))) text ↔ SpellsScalar s text :=
  ⟨fun spelled => spells_scalar spelled rfl, .scalar rfl⟩

theorem spells_array_iff {items : List Json} {text : List UInt8} :
    Spells (.part (.value (.array items))) text ↔ ∃ pieces, IsArray pieces text ∧
      List.Forall₂ (fun v piece => Spells (.part (.value v)) piece) items pieces := by
  constructor
  · intro spelled
    cases spelled with
    | scalar is_scalar _ => exact absurd is_scalar (array_ne_ofScalar _ _)
    | array inner =>
        obtain ⟨pieces, enclosed, all⟩ := spells_rest_iff.1 inner
        rw [List.forall₂_map_left_iff] at all
        exact ⟨pieces, .brackets enclosed, all⟩
  · rintro ⟨pieces, ⟨enclosed⟩, all⟩
    refine .array (spells_rest_iff.2 ⟨pieces, enclosed, ?_⟩)
    rw [List.forall₂_map_left_iff]
    exact all

theorem spells_object_iff {members : List (String × Json)} {text : List UInt8} :
    Spells (.part (.value (.object members))) text ↔ ∃ written, IsObject written text ∧
      List.Forall₂ (fun member part => member.1 = part.1 ∧ Spells (.part (.value member.2)) part.2)
        members written := by
  constructor
  · intro spelled
    cases spelled with
    | scalar is_scalar _ => exact absurd is_scalar (object_ne_ofScalar _ _)
    | object inner =>
        obtain ⟨pieces, enclosed, all⟩ := spells_rest_iff.1 inner
        have all := (List.forall₂_map_left_iff.1 all).imp fun member piece spelled =>
          let ⟨value, spelled, keyed⟩ := spells_member_iff.1 spelled
          (⟨(member.1, value), ⟨rfl, spelled⟩, keyed⟩ : ∃ part : String × List UInt8,
            (member.1 = part.1 ∧ Spells (.part (.value member.2)) part.2) ∧
              IsMember (SpellsString part.1) part.2 piece)
        obtain ⟨written, all, keyed⟩ := forall₂_comp_iff.1 all
        exact ⟨written, .brackets enclosed keyed, all⟩
  · rintro ⟨written, ⟨enclosed, keyed⟩, all⟩
    refine .object (spells_rest_iff.2 ⟨_, enclosed, List.forall₂_map_left_iff.2 ?_⟩)
    refine (forall₂_comp_iff.2 ⟨written, all, keyed⟩).imp ?_
    rintro member piece ⟨part, ⟨same, spelled⟩, keyed⟩
    exact spells_member_iff.2 ⟨part.2, spelled, same ▸ keyed⟩

/-! ## Reading -/

/-- The text spells the value, which is within the limits of the reader. -/
def SpellsWithin (depth : Nat) (v : Json) (text : List UInt8) : Prop :=
  Spells (.part (.value v)) text ∧ v.Within (·.inRange = true) depth

theorem SpellsWithin.opens {depth : Nat} {v : Json} {text : List UInt8}
    (h : SpellsWithin depth v text) : Opens text := by
  obtain ⟨b, tail, rfl, solid, no_array, no_object⟩ := part_head h.1
  exact opens_cons solid no_array no_object tail

theorem spellsWithin_ofScalar_iff {depth : Nat} {s : Scalar} {text : List UInt8} :
    SpellsWithin depth (ofScalar s) text ↔
      SpellsScalar s text ∧ ∀ n, s = .number n → n.inRange = true := by
  rw [SpellsWithin, spells_ofScalar_iff]
  refine and_congr_right fun _ => ⟨fun within => ?_, .scalar rfl⟩
  generalize eq : ofScalar s = v at within
  cases within with
  | scalar eq' inRange => rwa [ofScalar_injective (eq.trans eq')]
  | array _ => exact absurd eq.symm (array_ne_ofScalar _ s)
  | object _ => exact absurd eq.symm (object_ne_ofScalar _ s)

section Parts

variable {depth : Nat} {text : List UInt8}

theorem spellsWithin_array_iff {items : List Json} :
    SpellsWithin (depth + 1) (.array items) text ↔
      ∃ pieces, IsArray pieces text ∧ List.Forall₂ (SpellsWithin depth) items pieces := by
  have parts : (Json.array items).Within (·.inRange = true) (depth + 1) ↔
      ∀ item ∈ items, item.Within (·.inRange = true) depth := by
    refine ⟨fun within => ?_, .array⟩
    cases within with
    | scalar eq _ => exact absurd eq (array_ne_ofScalar _ _)
    | array parts => exact parts
  rw [SpellsWithin, spells_array_iff, parts, exists_and_right.symm]
  refine exists_congr fun pieces => and_assoc.trans (and_congr_right fun _ => ?_)
  rw [and_comm, ← List.forall₂_and_left]
  exact ⟨.imp fun _ _ => .symm, .imp fun _ _ => .symm⟩

theorem spellsWithin_object_iff {members : List (String × Json)} :
    SpellsWithin (depth + 1) (.object members) text ↔ ∃ written, IsObject written text ∧
      List.Forall₂ (fun member part => member.1 = part.1 ∧ SpellsWithin depth member.2 part.2)
        members written := by
  have parts : (Json.object members).Within (·.inRange = true) (depth + 1) ↔
      ∀ member ∈ members, member.2.Within (·.inRange = true) depth := by
    refine ⟨fun within => ?_, .object⟩
    cases within with
    | scalar eq _ => exact absurd eq (object_ne_ofScalar _ _)
    | object parts => exact parts
  rw [SpellsWithin, spells_object_iff, parts, exists_and_right.symm]
  refine exists_congr fun written => and_assoc.trans (and_congr_right fun _ => ?_)
  rw [and_comm, ← List.forall₂_and_left]
  simp only [SpellsWithin, ← and_assoc, and_comm]

end Parts

section Brackets

variable {item : Option (Reader Json)} {blanks text rest : List UInt8}

theorem inside_of_not_isBracket (b : UInt8) (plain : isBracket b = false) :
    inside item b = none := by
  unfold inside
  rw [plain]
  exact if_neg Bool.false_ne_true

theorem inside_array (reader : Reader Json) : inside (some reader) (ascii '[') =
    some fun bytes => (listOf Bracket.array.close reader bytes).map
      fun found => (.array found.1, found.2) := rfl

theorem inside_object (reader : Reader Json) : inside (some reader) (ascii '{') =
    some fun bytes => (listOf Bracket.object.close (Json.member reader) bytes).map
      fun found => (.object found.1, found.2) := rfl

/-- What is read behind an opening bracket are the parts up to the closing one. -/
theorem inside_eq_ok {b : UInt8} {read : List UInt8 → Except Fault (Json × List UInt8)}
    {bytes : List UInt8} {v : Json} (opened : inside item b = some read)
    (h : read bytes = .ok (v, rest)) : ∃ reader, item = some reader ∧
      ((b = ascii '[' ∧ ∃ items, v = .array items ∧
          listOf Bracket.array.close reader bytes = .ok (items, rest)) ∨
        b = ascii '{' ∧ ∃ members, v = .object members ∧
          listOf Bracket.object.close (Json.member reader) bytes = .ok (members, rest)) := by
  unfold inside at opened
  split at opened
  next bracket =>
    cases item with
    | none =>
        cases opened
        cases h
    | some reader =>
        cases opened
        refine ⟨reader, rfl, ?_⟩
        dsimp only at h
        split at h
        next array =>
          obtain ⟨⟨items, rest⟩, listed, eq⟩ := map_eq_ok h
          cases eq
          exact .inl ⟨array, items, rfl, listed⟩
        next no_array =>
          obtain ⟨⟨members, rest⟩, listed, eq⟩ := map_eq_ok h
          cases eq
          have object : b = ascii '{' := by
            simp only [isBracket, Bool.or_eq_true, decide_eq_true_eq] at bracket
            exact bracket.resolve_left no_array
          exact .inr ⟨object, members, rfl, listed⟩
  next => cases opened

theorem run_valueOver (bytes : List UInt8) : (valueOver item).run bytes =
    readTyped (fun s => some (ofScalar s)) (inside item) bytes := rfl

theorem valueOver_eq_ok {bytes : List UInt8} {v : Json}
    (read : (valueOver item).run bytes = .ok (v, rest)) :
    ∃ blanks, Blanks blanks ∧
      ((∃ b tail read, inside item b = some read ∧ read tail = .ok (v, rest) ∧
          bytes = blanks ++ b :: tail) ∨
        ∃ s text, v = ofScalar s ∧ SpellsScalar s text ∧
          (∀ n, s = .number n → n.inRange = true) ∧ bytes = blanks ++ (text ++ rest)) := by
  rw [run_valueOver] at read
  simpa only [Option.some.injEq, eq_comm] using readTyped_eq_ok read

theorem run_valueOver_scalar {s : Scalar} (before : Blanks blanks) (spelled : SpellsScalar s text)
    (inRange : ∀ n, s = .number n → n.inRange = true) (delimited : Delimited rest) :
    (valueOver item).run (blanks ++ (text ++ rest)) = .ok (ofScalar s, rest) := by
  rw [run_valueOver]
  exact readTyped_scalar inside_of_not_isBracket rfl before spelled inRange delimited

variable {reader : Reader Json} {spells : Json → List UInt8 → Prop}

theorem run_valueOver_array (reads : reader.Reads spells) {items : List Json}
    {pieces : List (List UInt8)} (before : Blanks blanks) (isArray : IsArray pieces text)
    (all : List.Forall₂ spells items pieces) :
    (valueOver (some reader)).run (blanks ++ (text ++ rest)) = .ok (.array items, rest) := by
  obtain ⟨enclosed⟩ := isArray
  have listed := (Reader.listOf_eq_ok_iff reads).2 ⟨pieces, _, enclosed, all, @rfl _ (_ ++ rest)⟩
  rw [run_valueOver, List.cons_append,
    readTyped_opened _ (inside_array reader) (by decide) before, listed]
  rfl

theorem run_valueOver_object (reads : reader.Reads spells) {members : List (String × Json)}
    {written : List (String × List UInt8)} (before : Blanks blanks)
    (isObject : IsObject written text)
    (all : List.Forall₂ (fun member part => member.1 = part.1 ∧ spells member.2 part.2)
      members written) :
    (valueOver (some reader)).run (blanks ++ (text ++ rest)) = .ok (.object members, rest) := by
  obtain ⟨enclosed, keyed⟩ := isObject
  have listed := (Reader.listOf_eq_ok_iff reads.member).2
    ⟨_, _, enclosed, forall₂_comp_iff.2 ⟨written, all, keyed⟩, @rfl _ (_ ++ rest)⟩
  rw [run_valueOver, List.cons_append,
    readTyped_opened _ (inside_object reader) (by decide) before, listed]
  rfl

end Brackets

theorem reads_value (depth : Nat) : (value depth).Reads (SpellsWithin depth) := by
  induction depth with
  | zero =>
      refine ⟨SpellsWithin.opens, ?complete, ?sound⟩
      case complete =>
        rintro v blanks text rest before ⟨spelled, within⟩ delimited
        cases within with
        | scalar eq inRange =>
            subst eq
            exact run_valueOver_scalar before (spells_ofScalar_iff.1 spelled) inRange delimited
      case sound =>
        intro v bytes rest read
        obtain ⟨blanks, before, found⟩ := valueOver_eq_ok read
        rcases found with ⟨b, tail, read, opened, found, -⟩ | ⟨s, text, eq, spelled, inRange, rfl⟩
        · -- there is no reader for what a bracket holds
          obtain ⟨_, none, -⟩ := inside_eq_ok opened found
          cases none
        · subst eq
          exact ⟨blanks, text, before, spellsWithin_ofScalar_iff.2 ⟨spelled, inRange⟩, rfl⟩
  | succ depth ih =>
      refine ⟨SpellsWithin.opens, ?complete, ?sound⟩
      case complete =>
        intro v blanks text rest before spelled delimited
        obtain ⟨_, within⟩ := id spelled
        cases within with
        | scalar eq _ =>
            subst eq
            obtain ⟨scalar, inRange⟩ := spellsWithin_ofScalar_iff.1 spelled
            exact run_valueOver_scalar before scalar inRange delimited
        | array _ =>
            obtain ⟨pieces, isArray, all⟩ := spellsWithin_array_iff.1 spelled
            exact run_valueOver_array ih before isArray all
        | object _ =>
            obtain ⟨written, isObject, all⟩ := spellsWithin_object_iff.1 spelled
            exact run_valueOver_object ih before isObject all
      case sound =>
        intro v bytes rest read
        obtain ⟨blanks, before, found⟩ := valueOver_eq_ok read
        rcases found with ⟨b, tail, read, opened, found, rfl⟩ | ⟨s, text, eq, spelled, inRange, rfl⟩
        · obtain ⟨reader, same, parts⟩ := inside_eq_ok opened found
          cases same
          rcases parts with ⟨rfl, items, rfl, listed⟩ | ⟨rfl, members, rfl, listed⟩
          · obtain ⟨pieces, inner, enclosed, all, rfl⟩ := (Reader.listOf_eq_ok_iff ih).1 listed
            exact ⟨blanks, _, before,
              spellsWithin_array_iff.2 ⟨pieces, .brackets enclosed, all⟩, rfl⟩
          · obtain ⟨pieces, inner, enclosed, all, rfl⟩ :=
              (Reader.listOf_eq_ok_iff ih.member).1 listed
            obtain ⟨written, all, keyed⟩ := forall₂_comp_iff.1 all
            exact ⟨blanks, _, before,
              spellsWithin_object_iff.2 ⟨written, .brackets enclosed keyed, all⟩, rfl⟩
        · subst eq
          exact ⟨blanks, text, before, spellsWithin_ofScalar_iff.2 ⟨spelled, inRange⟩, rfl⟩

/-- A text is read as the value that it spells within the limits, if it spells one. -/
theorem parse?_eq_some_iff {v : Json} {text : String} :
    parse? text = some v ↔ IsSpelledBy v text ∧ v.Within (·.inRange = true) maxDepth := by
  have read : parse? text = some v ↔
      document (value maxDepth) (Text.Utf8.encode text.toList) = .ok v := by
    rw [parse?]
    cases document (value maxDepth) (Text.Utf8.encode text.toList) <;> simp [Except.toOption]
  rw [read, document_eq_ok_iff (reads_value maxDepth)]
  constructor
  · rintro ⟨before, value, behind, blank, ⟨spelled, within⟩, blank', eq⟩
    exact ⟨⟨before, value, behind, blank, spelled, blank', eq⟩, within⟩
  · rintro ⟨⟨before, value, behind, blank, spelled, blank', eq⟩, within⟩
    exact ⟨before, value, behind, blank, ⟨spelled, within⟩, blank', eq⟩

/-! ## Looking up -/

theorem get?_eq_some_iff {name : String} {v held : Json} :
    v.get? name = some held ↔ LastMember name held v := by
  constructor
  · intro found
    cases v with
    | object members =>
        obtain ⟨⟨key, value⟩, first, rfl⟩ := Option.map_eq_some_iff.1 found
        obtain ⟨same, behind, before, split, others⟩ := List.find?_eq_some_iff_append.1 first
        rw [List.reverse_eq_append_iff, List.reverse_cons, List.append_assoc] at split
        cases of_decide_eq_true same
        rw [split]
        refine .last fun later mem => ?_
        simpa using others later (List.mem_reverse.1 mem)
    | _ => cases found
  · rintro ⟨others⟩
    rw [get?, List.reverse_append, List.reverse_cons, List.append_assoc, List.find?_append,
      List.find?_eq_none.2 fun later mem => by simpa using others later (List.mem_reverse.1 mem)]
    simp

end Json

end NodeInventory
