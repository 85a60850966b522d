import Mathlib.Data.List.Forall2
import NodeInventory.Json.Typed
import NodeInventory.Proofs.Json.Token

/-!
# Reading what is asked for

`Reader.Takes` says that a reader reads every spelling of a part of a text.  It holds of the readers
of texts and octets, and passes on to lists, dictionaries and records of what can be taken.
-/

namespace NodeInventory.Json

/-! ## Parts and what follows them -/

theorem not_isNumeric_of_isBlank {b : UInt8} (h : isBlank b = true) : isNumeric b = false := by
  simp only [isBlank, Bool.or_eq_true, decide_eq_true_eq] at h
  rcases h with ((rfl | rfl) | rfl) | rfl <;> decide

theorem delimited_append {blanks : List UInt8} (h : Blanks blanks) {b : UInt8}
    (stops : isNumeric b = false) (rest : List UInt8) : Delimited (blanks ++ b :: rest) := by
  cases blanks with
  | nil => exact avoids_cons stops rest
  | cons blank blanks =>
      exact avoids_cons (not_isNumeric_of_isBlank (h blank List.mem_cons_self)) _

/-- Behind a part there is a blank, a comma or the closing bracket. -/
theorem delimited_rest {bracket : Bracket} {parts : List Part} {text : List UInt8}
    (h : Spells (.rest bracket true parts) text) (rest : List UInt8) :
    Delimited (text ++ rest) := by
  cases h with
  | close before =>
      rw [List.append_assoc]
      refine delimited_append before ?_ rest
      cases bracket <;> decide
  | next before _ _ _ =>
      rw [List.append_assoc]
      exact delimited_append before (by decide) _

theorem part_head {part : Part} {text : List UInt8} (h : Spells (.part part) text) :
    ∃ b tail, text = b :: tail ∧ isBlank b = false ∧ b ≠ ascii ']' ∧ b ≠ ascii '}' := by
  cases h with
  | scalar _ scalar =>
      obtain ⟨b, tail, rfl, solid⟩ := scalar_head scalar
      simp only [isMark, Bool.or_eq_false_iff, decide_eq_false_iff_not] at solid
      exact ⟨b, tail, rfl, solid.1.1.1, solid.1.2, solid.2⟩
  | array _ => exact ⟨_, _, rfl, by decide, by decide, by decide⟩
  | object _ => exact ⟨_, _, rfl, by decide, by decide, by decide⟩
  | member name _ _ _ =>
      cases name with
      | quoted _ => exact ⟨_, _, rfl, by decide, by decide, by decide⟩

/-! ## Values between brackets -/

section Turns

variable {bracket : Bracket} {more : Bool} {blanks : List UInt8}

theorem turn_close (before : Blanks blanks) (rest : List UInt8) :
    turn bracket.close more (blanks ++ bracket.close :: rest) = .ok (.closed rest) := by
  have solid : isBlank bracket.close = false := by cases bracket <;> decide
  rw [turn, skipBlank_append before solid]
  exact if_pos rfl

theorem turn_first (before : Blanks blanks) {part : Part} {text : List UInt8}
    (h : Spells (.part part) text) (rest : List UInt8) :
    turn bracket.close false (blanks ++ (text ++ rest)) = .ok (.item (text ++ rest)) := by
  obtain ⟨b, tail, rfl, solid, no_array, no_object⟩ := part_head h
  have no_close : b ≠ bracket.close := by
    cases bracket
    · exact no_array
    · exact no_object
  rw [List.cons_append, turn, skipBlank_append before solid]
  simp only [if_neg no_close, if_true]

theorem turn_next (before : Blanks blanks) (rest : List UInt8) :
    turn bracket.close true (blanks ++ ascii ',' :: rest) = .ok (.item rest) := by
  have no_close : ascii ',' ≠ bracket.close := by cases bracket <;> decide
  rw [turn, skipBlank_append before (by decide)]
  simp only [if_neg no_close, if_true, Bool.true_eq_false, if_false]

end Turns

section Items

variable {σ : Type} {close : UInt8} {item : σ → Reader σ} {more : Bool} {state : σ}
variable {bytes : List UInt8}

theorem items_of_closed {rest : List UInt8} (h : turn close more bytes = .ok (.closed rest)) :
    items close item more state bytes = .ok (state, rest) := by
  rw [items]
  split
  next failed => cases h.symm.trans failed
  next closed => cases h.symm.trans closed; rfl
  next opened => cases h.symm.trans opened

theorem items_of_item {start rest : List UInt8} {next : σ}
    (h : turn close more bytes = .ok (.item start))
    (read : (item state).run start = .ok (next, rest)) :
    items close item more state bytes = items close item true next rest := by
  rw [items]
  split
  next failed => cases h.symm.trans failed
  next closed => cases h.symm.trans closed
  next opened =>
    cases h.symm.trans opened
    split
    next failed => cases read.symm.trans failed
    next found => cases read.symm.trans found; rfl

end Items

/-- The reader reads `a` from every spelling of the part, blanks before it passed over. -/
def Reader.Takes {α : Type} (reader : Reader α) (part : Part) (a : α) : Prop :=
  ∀ blanks text rest, Blanks blanks → Spells (.part part) text → Delimited rest →
    reader.run (blanks ++ (text ++ rest)) = .ok (a, rest)

/-- Reading the parts one by one leads from one state to another. -/
inductive Steps {σ : Type} (item : σ → Reader σ) : σ → List Part → σ → Prop
  | nil {state : σ} : Steps item state [] state
  | cons {state next final : σ} {part : Part} {parts : List Part} :
      (item state).Takes part next → Steps item next parts final →
      Steps item state (part :: parts) final

/-- Parts that can be read one by one are read up to the closing bracket. -/
theorem items_append {σ : Type} {item : σ → Reader σ} {state final : σ} {parts : List Part}
    (steps : Steps item state parts final) {bracket : Bracket} {more : Bool} {text : List UInt8}
    (h : Spells (.rest bracket more parts) text) (rest : List UInt8) :
    items bracket.close item more state (text ++ rest) = .ok (final, rest) := by
  -- the first part stands right behind the bracket, every later one behind a comma
  induction steps generalizing more text with
  | nil =>
      cases h with
      | close before =>
          rw [List.append_assoc, List.singleton_append]
          exact items_of_closed (turn_close before rest)
  | cons takes _ ih =>
      cases h with
      | @first _ _ _ _ text tail before part tailed =>
          have read := takes [] text (tail ++ rest) (fun _ mem => (by cases mem)) part
            (delimited_rest tailed rest)
          rw [List.append_assoc, List.append_assoc,
            items_of_item (turn_first before part _) read]
          exact ih tailed
      | @next _ _ _ _ behind text tail before blank part tailed =>
          have read := takes behind text (tail ++ rest) blank part (delimited_rest tailed rest)
          rw [List.append_assoc, List.cons_append, List.append_assoc, List.append_assoc,
            items_of_item (turn_next before _) read]
          exact ih tailed

/-! ## Readers of wanted types -/

theorem ofScalar_injective {s t : Scalar} (h : ofScalar s = ofScalar t) : s = t := by
  cases s <;> cases t <;> cases h <;> rfl

theorem array_ne_ofScalar (items : List Json) (s : Scalar) : Json.array items ≠ ofScalar s := by
  cases s <;> exact Json.noConfusion

theorem object_ne_ofScalar (members : List (String × Json)) (s : Scalar) :
    Json.object members ≠ ofScalar s := by
  cases s <;> exact Json.noConfusion

/-- A value without parts is spelled as a scalar. -/
theorem spells_scalar {v : Json} {s : Scalar} {text : List UInt8}
    (h : Spells (.part (.value v)) text) (is_scalar : v = ofScalar s) : SpellsScalar s text := by
  cases h with
  | scalar is_scalar' scalar =>
      rw [ofScalar_injective (is_scalar.symm.trans is_scalar')]
      exact scalar
  | array _ => exact absurd is_scalar (array_ne_ofScalar _ s)
  | object _ => exact absurd is_scalar (object_ne_ofScalar _ s)

theorem readTyped_opened {α : Type} {accept : Scalar → Option α}
    (inside : UInt8 → Option (List UInt8 → Except Fault (α × List UInt8))) {b : UInt8}
    {read : List UInt8 → Except Fault (α × List UInt8)} (opened : inside b = some read)
    (solid : isBlank b = false) {blanks : List UInt8} (before : Blanks blanks)
    (rest : List UInt8) :
    readTyped accept inside (blanks ++ b :: rest) = read rest := by
  rw [readTyped, skipBlank_append before solid]
  simp only [opened]

namespace Reader

variable {α β : Type} {reader : Reader α} {part : Part} {a : α}

theorem Takes.map (takes : reader.Takes part a) (f : α → β) : (reader.map f).Takes part (f a) := by
  intro blanks text rest before spelled delimited
  simp only [Reader.map, takes blanks text rest before spelled delimited, Except.map]

theorem takes_text (s : String) : text.Takes (.value (.string s)) s := by
  intro blanks text rest before spelled delimited
  refine readTyped_scalar (s := .string s) (a := s) (fun _ _ => rfl) rfl before
    (spells_scalar spelled rfl) ?_ delimited
  intro n eq
  cases eq

/-- The digits of a number of eight bits spell it, and it is in range. -/
theorem natural?_ofNat : ∀ n < 256,
    (Numeral.ofNat n).natural? = some n ∧ (Numeral.ofNat n).inRange = true := by
  decide +kernel

/-- A natural number of eight bits, written in its own digits. -/
theorem takes_octet (n : UInt8) : octet.Takes (.value (.number (.ofNat n.toNat))) n := by
  intro blanks text rest before spelled delimited
  obtain ⟨natural, inRange⟩ := natural?_ofNat n.toNat n.toNat_lt
  refine readTyped_scalar (s := .number (.ofNat n.toNat)) (fun _ _ => rfl) ?_ before
    (spells_scalar spelled rfl) ?_ delimited
  · have le : n.toNat ≤ 255 := Nat.le_of_lt_succ n.toNat_lt
    simp only [natural, Option.bind_some, if_pos le, UInt8.ofNat_toNat]
  · intro n eq
    cases eq
    exact inRange

/-- A key and its value. -/
theorem takes_member {name : String} {v : Json} (takes : reader.Takes (.value v) a) :
    (member reader).Takes (.member name v) (name, a) := by
  intro blanks text rest before spelled delimited
  cases spelled with
  | @member _ _ key inner behind value named blank blank' spelled =>
      have read := takes behind value rest blank' spelled delimited
      simp only [List.append_assoc, List.cons_append]
      have colon : mark (ascii ':') (inner ++ ascii ':' :: (behind ++ (value ++ rest))) =
          .ok (behind ++ (value ++ rest)) := mark_append blank (by decide) _
      simp only [member, memberOf, key_append named before, colon, read, Except.map]

/-- Where every item is taken, reading them one by one gathers what they are. -/
theorem steps_gather {parts : List Part} {found : List α}
    (takes : List.Forall₂ reader.Takes parts found) (before : List α) :
    Steps (fun before => reader.map (· :: before)) before parts (found.reverse ++ before) := by
  induction takes generalizing before with
  | nil => exact .nil
  | @cons part a parts found taken _ ih =>
      rw [List.reverse_cons, List.append_assoc, List.singleton_append]
      exact .cons (taken.map (· :: before)) (ih (a :: before))

theorem listOf_append (bracket : Bracket) {parts : List Part} {found : List α}
    (takes : List.Forall₂ reader.Takes parts found) {text : List UInt8}
    (h : Spells (.rest bracket false parts) text) (rest : List UInt8) :
    listOf bracket.close reader (text ++ rest) = .ok (found, rest) := by
  rw [listOf, items_append (steps_gather takes []) h]
  simp only [Except.map, List.append_nil, List.reverse_reverse]

theorem bracketed_append {opening : UInt8} {body : List UInt8 → Except Fault (α × List UInt8)}
    (shorter : ∀ {bytes a rest}, body bytes = .ok (a, rest) → rest.length < bytes.length)
    (solid : isBlank opening = false) {blanks : List UInt8} (before : Blanks blanks)
    (rest : List UInt8) :
    (bracketed opening body shorter).run (blanks ++ opening :: rest) = body rest := by
  show readTyped (fun _ => none) (fun b => if b = opening then some body else none) _ = _
  exact readTyped_opened _ (if_pos rfl) solid before rest

/-- An array of what the reader takes. -/
theorem takes_list {items : List Json} {found : List α}
    (takes : List.Forall₂ (fun v a => reader.Takes (.value v) a) items found) :
    (list reader).Takes (.value (.array items)) found := by
  intro blanks text rest before spelled delimited
  cases spelled with
  | scalar is_scalar _ => exact absurd is_scalar (array_ne_ofScalar _ _)
  | @array _ inner spelled =>
      refine (bracketed_append length_lt_of_listOf (by decide) before (inner ++ rest)).trans ?_
      exact listOf_append .array (List.forall₂_map_left_iff.2 takes) spelled rest

/-- An object whose members are alike. -/
theorem takes_dictionary {members : List (String × Json)} {found : List (String × α)}
    (takes : List.Forall₂ (fun m entry => m.1 = entry.1 ∧ reader.Takes (.value m.2) entry.2)
      members found) :
    (dictionary reader).Takes (.value (.object members)) found := by
  intro blanks text rest before spelled delimited
  cases spelled with
  | scalar is_scalar _ => exact absurd is_scalar (object_ne_ofScalar _ _)
  | @object _ inner spelled =>
      refine (bracketed_append length_lt_of_listOf (by decide) before (inner ++ rest)).trans ?_
      refine listOf_append .object (List.forall₂_map_left_iff.2 ?_) spelled rest
      refine takes.imp ?_
      rintro ⟨name, v⟩ ⟨name', a⟩ ⟨eq, takes⟩
      cases eq
      exact takes_member takes

end Reader

/-! ## Records -/

namespace Shape

variable {ν α : Type} (shape : Shape ν α)

/-- The reader of one member of a record, given the fields before it. -/
def fieldReader (fields : List (String × ν)) : Reader (List (String × ν)) :=
  ⟨shape.memberAt fields, shape.length_lt_of_memberAt⟩

variable {shape} {fields : List (String × ν)}

/-- A member with a field that has not been read before. -/
theorem takes_field {name field : String} {v : Json} {found : ν}
    (known : shape.field? name = some field) (fresh : (fields.any (·.1 == field)) = false)
    (takes : (shape.value field).Takes (.value v) found) :
    (shape.fieldReader fields).Takes (.member name v) ((field, found) :: fields) := by
  intro blanks text rest before spelled delimited
  cases spelled with
  | @member _ _ key inner behind value named blank blank' spelled =>
      have read := takes behind value rest blank' spelled delimited
      simp only [List.append_assoc, List.cons_append]
      have colon : mark (ascii ':') (inner ++ ascii ':' :: (behind ++ (value ++ rest))) =
          .ok (behind ++ (value ++ rest)) := mark_append blank (by decide) _
      simp only [fieldReader, memberAt, key_append named before, known, fresh, colon, read,
        Except.map, Bool.false_eq_true, if_false]

/-- The members of an object are taken one by one and make up the record. -/
inductive Makes (shape : Shape ν α) : Json → α → Prop
  | members {members : List (String × Json)} {fields : List (String × ν)} {record : α} :
      Steps shape.fieldReader [] (members.map fun m => .member m.1 m.2) fields →
      shape.build fields = some record → Makes shape (.object members) record

variable {v : Json} {record : α}

/-- A record ends with its bracket, whatever follows. -/
theorem run_of_makes (makes : shape.Makes v record) {blanks text : List UInt8}
    (before : Blanks blanks) (spelled : Spells (.part (.value v)) text) (rest : List UInt8) :
    shape.reader.run (blanks ++ (text ++ rest)) = .ok (record, rest) := by
  obtain ⟨steps, built⟩ := makes
  cases spelled with
  | scalar is_scalar _ => exact absurd is_scalar (object_ne_ofScalar _ _)
  | @object _ inner spelled =>
      have read : shape.named (inner ++ rest) = .ok (_, rest) := items_append steps spelled rest
      show readTyped (fun _ => none) (fun b => if isBracket b then some (shape.body b) else none)
        (blanks ++ ascii '{' :: (inner ++ rest)) = _
      rw [readTyped_opened _ (if_pos (by decide)) (by decide) before]
      rw [body, fieldsIn, if_neg (by decide), read]
      simp only [built]

theorem takes_record (makes : shape.Makes v record) : shape.reader.Takes (.value v) record := by
  intro blanks text rest before spelled _
  exact run_of_makes makes before spelled rest

end Shape

end NodeInventory.Json
