import NodeInventory.Proofs.Json.Printing
import NodeInventory.Proofs.Json.Reading
import NodeInventory.Proofs.Json.Taken

/-!
# Texts that break off

Where the spelling of a value breaks off, its reader comes to the end of the input inside of it and
finds no other fault before.  Of a numeral the part that is left may be a numeral itself; the reader
then comes to the end of the input behind it, where the brackets around it want more.
`Reader.Exhausts` says so of a part of a text, and passes on from the readers of texts and octets to
lists, dictionaries and records.
-/

namespace NodeInventory.Json

open Text

/-! ## Where a text breaks off -/

/-- The start is what is left of the text, which has lost its end. -/
def BreaksOff (text start : List UInt8) : Prop := ∃ lost, lost ≠ [] ∧ text = start ++ lost

theorem breaksOff_iff {text start : List UInt8} :
    BreaksOff text start ↔ start <+: text ∧ start ≠ text := by
  constructor
  · rintro ⟨lost, some, rfl⟩
    refine ⟨List.prefix_append start lost, fun whole => some ?_⟩
    simpa using whole
  · rintro ⟨⟨lost, rfl⟩, ne⟩
    refine ⟨lost, ?_, rfl⟩
    rintro rfl
    simp at ne

theorem not_breaksOff_nil {start : List UInt8} : ¬BreaksOff [] start := by
  rintro ⟨lost, some, eq⟩
  exact some (List.append_eq_nil_iff.1 eq.symm).2

theorem BreaksOff.length_lt {text start : List UInt8} (h : BreaksOff text start) :
    start.length < text.length := by
  obtain ⟨lost, some, rfl⟩ := h
  rw [List.length_append]
  exact Nat.lt_add_of_pos_right (List.length_pos_iff.2 some)

theorem BreaksOff.mem {text start : List UInt8} (h : BreaksOff text start) {b : UInt8}
    (mem : b ∈ start) : b ∈ text := by
  obtain ⟨lost, -, rfl⟩ := h
  exact List.mem_append_left lost mem

theorem BreaksOff.cases_cons {b : UInt8} {text start : List UInt8}
    (h : BreaksOff (b :: text) start) :
    start = [] ∨ ∃ tail, start = b :: tail ∧ BreaksOff text tail := by
  obtain ⟨lost, some, eq⟩ := h
  cases start with
  | nil => exact .inl rfl
  | cons d tail =>
      cases eq
      exact .inr ⟨tail, rfl, lost, some, rfl⟩

/-- A text in two parts breaks off in the first or in the second. -/
theorem BreaksOff.cases_append {text rest start : List UInt8} (h : BreaksOff (text ++ rest) start) :
    BreaksOff text start ∨ ∃ tail, start = text ++ tail ∧ BreaksOff rest tail := by
  obtain ⟨lost, some, eq⟩ := h
  rcases List.append_eq_append_iff.1 eq with ⟨tail, rfl, rfl⟩ | ⟨left, rfl, rfl⟩
  · exact .inr ⟨tail, rfl, lost, some, rfl⟩
  · by_cases none : left = []
    · subst none
      exact .inr ⟨[], by simp, rest, some, rfl⟩
    · exact .inl ⟨left, none, rfl⟩

/-- A text with blanks in front breaks off in these, or behind its first byte. -/
theorem BreaksOff.cases_blanks {blanks : List UInt8} (before : Blanks blanks) {b : UInt8}
    {text start : List UInt8} (h : BreaksOff (blanks ++ b :: text) start) :
    Blanks start ∨ ∃ tail, start = blanks ++ b :: tail ∧ BreaksOff text tail := by
  rcases h.cases_append with inside | ⟨tail, rfl, behind⟩
  · exact .inl fun b mem => before b (inside.mem mem)
  · rcases behind.cases_cons with rfl | ⟨tail, rfl, further⟩
    · rw [List.append_nil]
      exact .inl before
    · exact .inr ⟨tail, rfl, further⟩

/-- What is left of a delimited text is delimited: it starts alike, or it is empty. -/
theorem BreaksOff.delimited {text start : List UInt8} (h : BreaksOff text start)
    (delimited : Delimited text) : Delimited start := by
  obtain ⟨lost, -, rfl⟩ := h
  cases start with
  | nil => exact delimited_nil
  | cons b start => exact delimited

/-! ## Tokens -/

theorem mark_blanks {bytes : List UInt8} (h : Blanks bytes) (wanted : UInt8) :
    mark wanted bytes = .error .truncated := by
  rw [mark, skipBlank_eq_nil_iff.2 h]

theorem codeUnit_of_short {bytes : List UInt8} (h : bytes.length < 4) :
    codeUnit bytes = .error .truncated := by
  match bytes with
  | [] | [_] | [_, _] | [_, _, _] => rfl
  | _ :: _ :: _ :: _ :: _ => simp at h; omega

theorem lowHalf_breaksOff {digits start : List UInt8} (four : digits.length = 4)
    (h : BreaksOff (ascii '\\' :: ascii 'u' :: digits) start) (high : Nat) :
    lowHalf high start = .error .truncated := by
  rcases h.cases_cons with rfl | ⟨tail, rfl, behind⟩
  · rfl
  rcases behind.cases_cons with rfl | ⟨tail, rfl, inside⟩
  · rfl
  simp [lowHalf, exactly, bind, Except.bind, codeUnit_of_short (four ▸ inside.length_lt)]

theorem namedChar_of_short {bytes : List UInt8} (h : bytes.length < 4) :
    namedChar bytes = .error .truncated := by
  simp [namedChar, bind, Except.bind, codeUnit_of_short h]

theorem stringBytes_nil : stringBytes [] = .error .truncated := by
  rw [stringBytes]

theorem stringBytes_of_escape {bytes : List UInt8} {fault : Fault}
    (h : escape bytes = .error fault) : stringBytes (ascii '\\' :: bytes) = .error fault := by
  rw [stringBytes, if_neg (by decide), if_pos rfl]
  split
  next failed => cases h.symm.trans failed; rfl
  next read => cases h.symm.trans read

theorem stringBytes_char_breaksOff {c : Char} {text start : List UInt8} (h : SpellsChar c text)
    (breaks : BreaksOff text start) : stringBytes start = .error .truncated := by
  cases h with
  | raw printable no_quote no_backslash =>
      have left := stringBytes_raw
        (fun b mem => raw_of_mem printable no_quote no_backslash (breaks.mem mem)) []
      rw [List.append_nil, stringBytes_nil] at left
      exact left
  | letter escapes =>
      rcases breaks.cases_cons with rfl | ⟨tail, rfl, behind⟩
      · exact stringBytes_nil
      rcases behind.cases_cons with rfl | ⟨tail, rfl, inside⟩
      · exact stringBytes_of_escape rfl
      · exact absurd inside not_breaksOff_nil
  | unit four value =>
      rcases breaks.cases_cons with rfl | ⟨tail, rfl, behind⟩
      · exact stringBytes_nil
      rcases behind.cases_cons with rfl | ⟨tail, rfl, inside⟩
      · exact stringBytes_of_escape rfl
      refine stringBytes_of_escape ?_
      rw [escape_unit, namedChar_of_short (four ▸ inside.length_lt)]
  | @surrogates highDigits lowDigits high low four four' value value' isHigh isLow code =>
      rcases breaks.cases_cons with rfl | ⟨tail, rfl, behind⟩
      · exact stringBytes_nil
      rcases behind.cases_cons with rfl | ⟨tail, rfl, inside⟩
      · exact stringBytes_of_escape rfl
      refine stringBytes_of_escape ?_
      rw [escape_unit]
      rcases inside.cases_append with first | ⟨tail, rfl, second⟩
      · exact namedChar_of_short (four ▸ first.length_lt)
      · have not_low : isLowSurrogate high = false := not_isLowSurrogate isHigh
        simp [namedChar, bind, Except.bind, codeUnit_append four value, not_low, isHigh,
          lowHalf_breaksOff four' second]

theorem stringBytes_breaksOff {s : List Char} {text start : List UInt8} (h : SpellsChars s text)
    (breaks : BreaksOff (text ++ [ascii '"']) start) : stringBytes start = .error .truncated := by
  induction h generalizing start with
  | nil =>
      rcases breaks.cases_cons with rfl | ⟨tail, rfl, behind⟩
      · exact stringBytes_nil
      · exact absurd behind not_breaksOff_nil
  | cons char _ ih =>
      rw [List.append_assoc] at breaks
      rcases breaks.cases_append with inside | ⟨tail, rfl, behind⟩
      · exact stringBytes_char_breaksOff char inside
      · rw [stringBytes_char char, ih behind]
        rfl

theorem stringBody_breaksOff {s : List Char} {text start : List UInt8} (h : SpellsChars s text)
    (breaks : BreaksOff (text ++ [ascii '"']) start) : stringBody start = .error .truncated := by
  rw [stringBody, stringBytes_breaksOff h breaks]

theorem key_breaksOff {name : String} {blanks text start : List UInt8} (h : SpellsString name text)
    (before : Blanks blanks) (breaks : BreaksOff (blanks ++ text) start) :
    key start = .error .truncated := by
  cases h with
  | quoted chars =>
      rcases breaks.cases_blanks before with blank | ⟨tail, rfl, inside⟩
      · rw [key, mark_blanks blank]
      · rw [key, mark_append before (by decide)]
        exact stringBody_breaksOff chars inside

/-- How far a reader of members comes: to the end of the input inside the key, or behind the key,
or to what is left of the value. -/
theorem keyed_breaksOff {name : String} {blanks text inner value start : List UInt8}
    (named : SpellsString name text) (before : Blanks blanks) (blank : Blanks inner)
    (breaks : BreaksOff (blanks ++ (text ++ (inner ++ ascii ':' :: value))) start) :
    key start = .error .truncated ∨ ∃ tail, key start = .ok (name, tail) ∧
      (mark (ascii ':') tail = .error .truncated ∨
        ∃ left, mark (ascii ':') tail = .ok left ∧ BreaksOff value left) := by
  rw [← List.append_assoc] at breaks
  rcases breaks.cases_append with inside | ⟨tail, rfl, behind⟩
  · exact .inl (key_breaksOff named before inside)
  · rw [List.append_assoc]
    refine .inr ⟨tail, key_append named before tail, ?_⟩
    rcases behind.cases_blanks blank with blanks | ⟨left, rfl, further⟩
    · exact .inl (mark_blanks blanks _)
    · exact .inr ⟨left, mark_append blank (by decide) left, further⟩

/-! ## Readers at the end of the input -/

/-- The input ends inside of what is read, or right behind it. -/
def Wants {α : Type} (result : Except Fault (α × List UInt8)) : Prop :=
  result = .error .truncated ∨ ∃ a, result = .ok (a, [])

theorem Wants.map {α β : Type} {result : Except Fault (α × List UInt8)} (wants : Wants result)
    (f : α → β) : Wants (result.map fun found => (f found.1, found.2)) := by
  rcases wants with rfl | ⟨a, rfl⟩
  · exact .inl rfl
  · exact .inr ⟨f a, rfl⟩

/-- Wherever a spelling of the part breaks off, the reader comes to the end of the input. -/
def Reader.Exhausts {α : Type} (reader : Reader α) (part : Part) : Prop :=
  ∀ blanks text start, Blanks blanks → Spells (.part part) text →
    BreaksOff (blanks ++ text) start → Wants (reader.run start)

/-! ## Values between brackets -/

section Items

variable {σ : Type} {close : UInt8} {item : σ → Reader σ} {more : Bool} {state : σ}

theorem turn_blanks {bytes : List UInt8} (h : Blanks bytes) :
    turn close more bytes = .error .truncated := by
  rw [turn, skipBlank_eq_nil_iff.2 h]

theorem items_blanks {bytes : List UInt8} (h : Blanks bytes) :
    items close item more state bytes = .error .truncated := by
  have turned : turn close more bytes = .error .truncated := turn_blanks h
  rw [items]
  split
  next failed => cases turned.symm.trans failed; rfl
  next closed => cases turned.symm.trans closed
  next opened => cases turned.symm.trans opened

/-- An item at the end of the input is not the last thing that the brackets want. -/
theorem items_of_wants {bytes start : List UInt8} (h : turn close more bytes = .ok (.item start))
    (wants : Wants ((item state).run start)) :
    items close item more state bytes = .error .truncated := by
  rcases wants with failed | ⟨next, read⟩
  · rw [items]
    split
    next failed => cases h.symm.trans failed
    next closed => cases h.symm.trans closed
    next opened =>
      cases h.symm.trans opened
      rw [failed]
  · rw [items_of_item h read]
    exact items_blanks blanks_nil

end Items

theorem turn_breaksOff {bracket : Bracket} {blanks text start : List UInt8} {part : Part}
    (before : Blanks blanks) (h : Spells (.part part) text) (breaks : BreaksOff text start) :
    Blanks (blanks ++ start) ∨
      turn bracket.close false (blanks ++ start) = .ok (.item start) := by
  obtain ⟨b, tail, rfl, solid, no_array, no_object⟩ := part_head h
  have no_close : b ≠ bracket.close := by
    cases bracket
    · exact no_array
    · exact no_object
  rcases breaks.cases_cons with rfl | ⟨start, rfl, _⟩
  · rw [List.append_nil]
    exact .inl before
  · rw [turn, skipBlank_append before solid]
    simp [no_close]

/-- What is left of the further parts does not go on with the part before. -/
theorem BreaksOff.delimited_rest {bracket : Bracket} {parts : List Part} {text start : List UInt8}
    (h : BreaksOff text start) (spelled : Spells (.rest bracket true parts) text) :
    Delimited start := by
  have delimited := Json.delimited_rest spelled []
  rw [List.append_nil] at delimited
  exact h.delimited delimited

/-- Parts that can be read one by one, and that their readers exhaust, are never taken for all that
the brackets hold before the closing one. -/
theorem items_breaksOff {σ : Type} {item : σ → Reader σ} {state final : σ} {parts : List Part}
    (steps : Steps item state parts final)
    (exhausts : ∀ part ∈ parts, ∀ state next, (item state).Takes part next →
      (item state).Exhausts part)
    {bracket : Bracket} {more : Bool} {text start : List UInt8}
    (h : Spells (.rest bracket more parts) text) (breaks : BreaksOff text start) :
    items bracket.close item more state start = .error .truncated := by
  -- the parts before the one that breaks off are read as they are in the whole text
  induction steps generalizing more text start with
  | nil =>
      cases h with
      | close before =>
          rcases breaks.cases_blanks before with blank | ⟨_, _, behind⟩
          · exact items_blanks blank
          · exact absurd behind not_breaksOff_nil
  | @cons state next final part parts takes _ ih =>
      have exhausted := exhausts part List.mem_cons_self state next takes
      have later : ∀ part ∈ parts, ∀ state next, (item state).Takes part next →
          (item state).Exhausts part :=
        fun part mem => exhausts part (List.mem_cons_of_mem _ mem)
      cases h with
      | @first _ _ _ before text tail blank spelled tailed =>
          rcases breaks.cases_append with front | ⟨start, rfl, behind⟩
          · exact items_blanks fun b mem => blank b (front.mem mem)
          rcases behind.cases_append with inside | ⟨start, rfl, further⟩
          · have opened : Blanks (before ++ start) ∨
                turn bracket.close false (before ++ start) = .ok (.item start) :=
              turn_breaksOff blank spelled inside
            rcases opened with blanks | turned
            · exact items_blanks blanks
            · exact items_of_wants turned (exhausted [] text start blanks_nil spelled inside)
          · have read := takes [] text start blanks_nil spelled (further.delimited_rest tailed)
            rw [items_of_item (turn_first blank spelled start) read]
            exact ih later tailed further
      | @next _ _ _ before after text tail blank blank' spelled tailed =>
          rcases breaks.cases_blanks blank with blanks | ⟨start, rfl, behind⟩
          · exact items_blanks blanks
          have turned :
              turn bracket.close true (before ++ ascii ',' :: start) = .ok (.item start) :=
            turn_next blank start
          rw [← List.append_assoc] at behind
          rcases behind.cases_append with inside | ⟨start, rfl, further⟩
          · exact items_of_wants turned (exhausted after text start blank' spelled inside)
          · have read := takes after text start blank' spelled (further.delimited_rest tailed)
            rw [← List.append_assoc] at read
            rw [items_of_item turned read]
            exact ih later tailed further

/-! ## Readers of wanted types -/

theorem readTyped_blanks {α : Type} {accept : Scalar → Option α}
    {inside : UInt8 → Option (List UInt8 → Except Fault (α × List UInt8))} {bytes : List UInt8}
    (h : Blanks bytes) : readTyped accept inside bytes = .error .truncated := by
  rw [readTyped, skipBlank_eq_nil_iff.2 h]

/-- A value in brackets breaks off before the opening one, or with its inner part. -/
theorem readTyped_breaksOff {α : Type} {accept : Scalar → Option α}
    {inside : UInt8 → Option (List UInt8 → Except Fault (α × List UInt8))} {b : UInt8}
    {read : List UInt8 → Except Fault (α × List UInt8)} (opened : inside b = some read)
    (solid : isBlank b = false) {blanks inner start : List UInt8} (before : Blanks blanks)
    (wants : ∀ start, BreaksOff inner start → read start = .error .truncated)
    (breaks : BreaksOff (blanks ++ b :: inner) start) :
    readTyped accept inside start = .error .truncated := by
  rcases breaks.cases_blanks before with blank | ⟨tail, rfl, behind⟩
  · exact readTyped_blanks blank
  · rw [readTyped_opened inside opened solid before]
    exact wants tail behind

namespace Reader

variable {α β : Type} {reader : Reader α}

theorem Exhausts.map {part : Part} (exhausts : reader.Exhausts part) (f : α → β) :
    (reader.map f).Exhausts part := by
  intro blanks text start before spelled breaks
  exact (exhausts blanks text start before spelled breaks).map f

/-- Whatever the reader accepts. -/
theorem readTyped_string_breaksOff {accept : Scalar → Option α} {s : List Char}
    {blanks text start : List UInt8} (before : Blanks blanks) (chars : SpellsChars s text)
    (breaks : BreaksOff (blanks ++ ascii '"' :: (text ++ [ascii '"'])) start) :
    readTyped accept (fun _ => none) start = .error .truncated := by
  rcases breaks.cases_blanks before with blank | ⟨tail, rfl, inside⟩
  · exact readTyped_blanks blank
  · rw [readTyped, skipBlank_append before (by decide)]
    simp [show isBracket (ascii '"') = false by decide, scalarAt, stringBody_breaksOff chars inside,
      Except.map]

theorem exhausts_text (s : String) : text.Exhausts (.value (.string s)) := by
  intro blanks text start before spelled breaks
  have scalar := spells_scalar (s := .string s) spelled rfl
  cases scalar with
  | string quoted =>
      cases quoted with
      | quoted chars =>
          left
          exact readTyped_string_breaksOff before chars breaks

/-- The first digits of an octet are those of a smaller one. -/
theorem take_digits : ∀ n < 256, ∀ k < 3, 0 < k → k < (Numeral.ofNat n).whole.length →
    (Numeral.ofNat n).whole.take k = (Numeral.ofNat (n / 10)).whole ∨
      (Numeral.ofNat n).whole.take k = (Numeral.ofNat (n / 100)).whole := by
  decide +kernel

theorem length_digits : ∀ n < 256, (Numeral.ofNat n).whole.length ≤ 3 := by
  decide +kernel

/-- What is left of an octet's digits is nothing, or spells another octet. -/
theorem octet_of_breaksOff {n : Nat} (small : n < 256) {start : List UInt8}
    (breaks : BreaksOff (Numeral.ofNat n).whole start) :
    start = [] ∨ ∃ m : UInt8, start = (Numeral.ofNat m.toNat).whole := by
  by_cases none : start = []
  · exact .inl none
  right
  obtain ⟨⟨lost, eq⟩, -⟩ := breaksOff_iff.1 breaks
  have taken : start = (Numeral.ofNat n).whole.take start.length := by
    rw [← eq, List.take_left]
  have short := breaks.length_lt
  have three := length_digits n small
  have octet (m : Nat) (le : m ≤ n) : (UInt8.ofNat m).toNat = m :=
    Utf8.toNat_ofNat (Nat.lt_of_le_of_lt le small)
  rcases take_digits n small start.length (by omega) (List.length_pos_iff.2 none) short
    with tenth | hundredth
  · exact ⟨UInt8.ofNat (n / 10), by rw [octet _ (Nat.div_le_self n 10), ← tenth, ← taken]⟩
  · exact ⟨UInt8.ofNat (n / 100), by rw [octet _ (Nat.div_le_self n 100), ← hundredth, ← taken]⟩

theorem spellsNumeral_ofNat {n : Nat} {text : List UInt8} (h : SpellsNumeral (.ofNat n) text) :
    text = (Numeral.ofNat n).whole := by
  generalize eq : Numeral.ofNat n = m at h
  cases h with
  | parts digits leading fraction exponent =>
      cases eq
      cases exponent
      cases fraction with
      | none => simp
      | some digits => exact absurd rfl digits.1

theorem spells_octet (n : UInt8) :
    Spells (.part (.value (.number (.ofNat n.toNat)))) (Numeral.ofNat n.toNat).whole := by
  obtain ⟨-, chars⟩ := digits_ofNat n.toNat
  rw [← chars]
  exact (printed_octet n).compact

theorem exhausts_octet (n : UInt8) : octet.Exhausts (.value (.number (.ofNat n.toNat))) := by
  intro blanks text start before spelled breaks
  have scalar := spells_scalar (s := .number (.ofNat n.toNat)) spelled rfl
  have at_blanks {bytes : List UInt8} (blank : Blanks bytes) :
      octet.run bytes = .error .truncated := by
    show readTyped _ (fun _ => none) bytes = _
    exact readTyped_blanks blank
  cases scalar with
  | number numeral =>
      rw [spellsNumeral_ofNat numeral] at breaks
      rcases breaks.cases_append with front | ⟨digits, rfl, inside⟩
      · exact .inl (at_blanks fun b mem => before b (front.mem mem))
      rcases octet_of_breaksOff n.toNat_lt inside with rfl | ⟨m, rfl⟩
      · rw [List.append_nil]
        exact .inl (at_blanks before)
      · have read := takes_octet m blanks _ [] before (spells_octet m) delimited_nil
        rw [List.append_nil] at read
        exact .inr ⟨m, read⟩

theorem exhausts_member {name : String} {v : Json} (exhausts : reader.Exhausts (.value v)) :
    (member reader).Exhausts (.member name v) := by
  intro blanks text start before spelled breaks
  cases spelled with
  | @member _ _ key inner behind value named blank blank' spelled =>
      show Wants (memberOf reader start)
      rcases keyed_breaksOff named before blank breaks with
        cut | ⟨tail, keyed, cut | ⟨left, colon, cut⟩⟩
      · left
        rw [memberOf, cut]
      · left
        simp only [memberOf, keyed, cut]
      · simp only [memberOf, keyed, colon]
        exact (exhausts behind value left blank' spelled cut).map (Prod.mk name)

theorem listOf_breaksOff (bracket : Bracket) {parts : List Part} {found : List α}
    (takes : List.Forall₂ reader.Takes parts found)
    (exhausts : ∀ part ∈ parts, reader.Exhausts part) {text start : List UInt8}
    (h : Spells (.rest bracket false parts) text) (breaks : BreaksOff text start) :
    listOf bracket.close reader start = .error .truncated := by
  have cut := items_breaksOff (steps_gather takes [])
    (fun part mem before _ _ => (exhausts part mem).map (· :: before)) h breaks
  rw [listOf, cut]
  rfl

theorem bracketed_breaksOff {opening : UInt8}
    {body : List UInt8 → Except Fault (α × List UInt8)}
    (shorter : ∀ {bytes a rest}, body bytes = .ok (a, rest) → rest.length < bytes.length)
    (solid : isBlank opening = false) {blanks inner start : List UInt8} (before : Blanks blanks)
    (wants : ∀ start, BreaksOff inner start → body start = .error .truncated)
    (breaks : BreaksOff (blanks ++ opening :: inner) start) :
    (bracketed opening body shorter).run start = .error .truncated := by
  show readTyped (fun _ => none) (fun b => if b = opening then some body else none) start = _
  exact readTyped_breaksOff (if_pos rfl) solid before wants breaks

/-- An array of what the reader takes and exhausts. -/
theorem exhausts_list {items : List Json} {found : List α}
    (takes : List.Forall₂ (fun v a => reader.Takes (.value v) a) items found)
    (exhausts : ∀ v ∈ items, reader.Exhausts (.value v)) :
    (list reader).Exhausts (.value (.array items)) := by
  intro blanks text start before spelled breaks
  cases spelled with
  | scalar is_scalar _ => exact absurd is_scalar (array_ne_ofScalar _ _)
  | @array _ inner spelled =>
      refine .inl (bracketed_breaksOff length_lt_of_listOf (by decide) before (fun start cut => ?_)
        breaks)
      refine listOf_breaksOff .array (List.forall₂_map_left_iff.2 takes) ?_ spelled cut
      intro part mem
      obtain ⟨v, item, rfl⟩ := List.mem_map.1 mem
      exact exhausts v item

/-- An object whose members are alike. -/
theorem exhausts_dictionary {members : List (String × Json)} {found : List (String × α)}
    (takes : List.Forall₂ (fun m entry => m.1 = entry.1 ∧ reader.Takes (.value m.2) entry.2)
      members found)
    (exhausts : ∀ m ∈ members, reader.Exhausts (.value m.2)) :
    (dictionary reader).Exhausts (.value (.object members)) := by
  intro blanks text start before spelled breaks
  cases spelled with
  | scalar is_scalar _ => exact absurd is_scalar (object_ne_ofScalar _ _)
  | @object _ inner spelled =>
      refine .inl (bracketed_breaksOff length_lt_of_listOf (by decide) before (fun start cut => ?_)
        breaks)
      refine listOf_breaksOff .object (List.forall₂_map_left_iff.2 (takes.imp ?_)) ?_ spelled cut
      · rintro ⟨name, v⟩ ⟨name', a⟩ ⟨eq, takes⟩
        cases eq
        exact takes_member takes
      · intro part mem
        obtain ⟨m, member, rfl⟩ := List.mem_map.1 mem
        exact exhausts_member (exhausts m member)

end Reader

/-! ## Records -/

namespace Shape

variable {ν α : Type} {shape : Shape ν α}

/-- A field that is taken has not been read before, and so nothing is refused behind its key. -/
theorem exhausts_field {fields next : List (String × ν)} {name field : String} {v : Json}
    (known : shape.field? name = some field)
    (exhausts : (shape.value field).Exhausts (.value v))
    (takes : (shape.fieldReader fields).Takes (.member name v) next) :
    (shape.fieldReader fields).Exhausts (.member name v) := by
  intro blanks text start before spelled breaks
  have whole := takes blanks text [] before spelled delimited_nil
  cases spelled with
  | @member _ _ key inner behind value named blank blank' spelled =>
      have fresh : fields.any (·.1 == field) = false := by
        by_contra repeated
        rw [Bool.not_eq_false] at repeated
        simp [fieldReader, memberAt, key_append named before, known, repeated] at whole
      show Wants (shape.memberAt fields start)
      rcases keyed_breaksOff named before blank breaks with
        cut | ⟨tail, keyed, cut | ⟨left, colon, cut⟩⟩
      · left
        rw [memberAt, cut]
      · left
        simp [memberAt, keyed, known, fresh, cut]
      · simp only [memberAt, keyed, known, fresh, colon, Bool.false_eq_true, if_false]
        exact (exhausts behind value left blank' spelled cut).map
          fun found => (field, found) :: fields

/-- A record all of whose members are known is never taken for whole before its bracket. -/
theorem run_of_breaksOff {members : List (String × Json)} {record : α}
    (makes : shape.Makes (.object members) record)
    (exhausts : ∀ m ∈ members, ∃ field, shape.field? m.1 = some field ∧
      (shape.value field).Exhausts (.value m.2))
    {blanks text start : List UInt8} (before : Blanks blanks)
    (spelled : Spells (.part (.value (.object members))) text)
    (breaks : BreaksOff (blanks ++ text) start) :
    shape.reader.run start = .error .truncated := by
  cases makes with
  | members steps built =>
  cases spelled with
  | scalar is_scalar _ => exact absurd is_scalar (object_ne_ofScalar _ _)
  | @object _ inner spelled =>
      have exhausted : ∀ part ∈ members.map fun m => Part.member m.1 m.2, ∀ fields next,
          (shape.fieldReader fields).Takes part next →
          (shape.fieldReader fields).Exhausts part := by
        intro part mem fields next takes
        obtain ⟨m, member, rfl⟩ := List.mem_map.1 mem
        obtain ⟨field, known, exhausts⟩ := exhausts m member
        exact exhausts_field known exhausts takes
      show readTyped (fun _ => none) (fun b => if isBracket b then some (shape.body b) else none)
        start = _
      refine readTyped_breaksOff (if_pos (by decide)) (by decide) before (fun start cut => ?_)
        breaks
      have named : shape.named start = .error .truncated :=
        items_breaksOff steps exhausted spelled cut
      rw [body, fieldsIn, if_neg (by decide), named]

theorem exhausts_record {members : List (String × Json)} {record : α}
    (makes : shape.Makes (.object members) record)
    (exhausts : ∀ m ∈ members, ∃ field, shape.field? m.1 = some field ∧
      (shape.value field).Exhausts (.value m.2)) :
    shape.reader.Exhausts (.value (.object members)) := by
  intro blanks text start before spelled breaks
  exact .inl (run_of_breaksOff makes exhausts before spelled breaks)

end Shape

end NodeInventory.Json
