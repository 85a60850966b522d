import Mathlib.Data.List.Basic
import NodeInventory.Proofs.Text.Cutting

/-!
# The pieces of a text

The pieces that cutting and searching give, said of the text itself: a piece reaches from one cut to
the next one, and what follows a marker follows its leftmost occurrence.  Main statements:
`mem_split_iff`, `isStripped_iff`, `mem_lines_iff`, `isFirstWord_iff` and `after?_eq_some_iff`.
-/

namespace NodeInventory.Text

variable {α : Type _} {p : α → Bool}

/-! ## Pieces -/

/-- A part without cuts, between two cuts or between a cut and an end. -/
def IsPiece (p : α → Bool) (piece s : List α) : Prop :=
  ∃ before after, s = before ++ (piece ++ after) ∧ (∀ a ∈ piece, p a = false) ∧
    (∀ a, before.getLast? = some a → p a = true) ∧ ∀ a, after.head? = some a → p a = true

/-- A sequence is free of cuts, or its first cut comes after a free part. -/
theorem cut_induction {motive : List α → Prop}
    (free : ∀ s, (∀ a ∈ s, p a = false) → motive s)
    (cut : ∀ first b rest, (∀ a ∈ first, p a = false) → p b = true → motive rest →
      motive (first ++ b :: rest)) (s : List α) : motive s := by
  induction length : s.length using Nat.strongRecOn generalizing s with
  | _ n ih =>
    cases found : s.find? p with
    | none => exact free s fun a mem => eq_false_of_ne_true (List.find?_eq_none.1 found a mem)
    | some b =>
        obtain ⟨accepted, first, rest, rfl, refused⟩ := List.find?_eq_some_iff_append.1 found
        refine cut first b rest (fun a mem => by simpa using refused a mem) accepted ?_
        refine ih rest.length ?_ rest rfl
        rw [← length, List.length_append, List.length_cons]
        omega

theorem IsPiece.mem_split {piece s : List α} (stands : IsPiece p piece s) : piece ∈ split p s := by
  obtain ⟨before, after, rfl, free, starts, ends⟩ := stands
  have first : piece ∈ split p (piece ++ after) := by
    cases after with
    | nil =>
        rw [List.append_nil, split_eq_singleton free]
        exact List.mem_cons_self
    | cons b after =>
        rw [split_append_cons free (ends b rfl)]
        exact List.mem_cons_self
  rcases List.eq_nil_or_concat' before with rfl | ⟨before, b, rfl⟩
  · exact first
  · have cut : p b = true := starts b List.getLast?_concat
    rw [List.append_assoc, List.singleton_append, split_append_break before cut]
    exact List.mem_append_right _ first

/-- A part that ends in a cut does so with more parts before it. -/
theorem cut_of_getLast? {first rest : List α} {b : α} (cut : p b = true)
    (ends : ∀ a, rest.getLast? = some a → p a = true) (a : α)
    (last : (first ++ b :: rest).getLast? = some a) : p a = true := by
  rw [List.getLast?_append, List.getLast?_cons] at last
  cases eq : rest.getLast? with
  | none =>
      rw [eq] at last
      cases last
      exact cut
  | some c =>
      rw [eq] at last
      cases last
      exact ends _ eq

theorem mem_split_iff {piece s : List α} : piece ∈ split p s ↔ IsPiece p piece s := by
  refine ⟨fun mem => ?_, IsPiece.mem_split⟩
  induction s using cut_induction (p := p) with
  | free s free =>
      rw [split_eq_singleton free, List.mem_singleton] at mem
      subst mem
      refine ⟨[], [], (List.append_nil piece).symm, free, ?_, ?_⟩ <;> rintro _ ⟨⟩
  | cut first b rest free cut ih =>
      rw [split_append_cons free cut] at mem
      rcases List.mem_cons.1 mem with rfl | later
      · refine ⟨[], b :: rest, rfl, free, ?_, ?_⟩ <;> rintro _ ⟨⟩
        exact cut
      · obtain ⟨before, after, rfl, free', starts, ends⟩ := ih later
        exact ⟨first ++ b :: before, after, by simp, free', cut_of_getLast? cut starts, ends⟩

theorem IsPiece.isInfix {piece s : List α} (stands : IsPiece p piece s) : piece <:+: s := by
  obtain ⟨before, after, rfl, -⟩ := stands
  exact ⟨before, after, List.append_assoc ..⟩

theorem strip_isInfix (p : α → Bool) (s : List α) : strip p s <:+: s := by
  obtain ⟨before, behind, -, -, eq⟩ := exists_strip p s
  exact ⟨before, behind, by rw [List.append_assoc, ← eq]⟩

/-! ## Ends -/

/-- What is left of `s` when all accepted elements are taken off its two ends. -/
structure IsStripped (p : α → Bool) (s core : List α) : Prop where
  parts : ∃ before behind, s = before ++ (core ++ behind) ∧ (∀ a ∈ before, p a = true) ∧
    ∀ a ∈ behind, p a = true
  rest : core = [] ∨ Bare p core

theorem isStripped_iff {s core : List α} : IsStripped p s core ↔ strip p s = core := by
  constructor
  · rintro ⟨⟨before, behind, rfl, accepted, accepted'⟩, rfl | bare⟩
    · refine strip_eq_nil fun a mem => ?_
      exact (List.mem_append.1 mem).elim (accepted a) (accepted' a)
    · rw [← List.append_assoc, strip_append bare, List.dropWhile_eq_nil_iff.2 accepted,
        stripEnd_eq_nil accepted', List.append_nil, List.nil_append]
  · rintro rfl
    obtain ⟨before, behind, accepted, accepted', eq⟩ := exists_strip p s
    exact ⟨⟨before, behind, eq, accepted, accepted'⟩, strip_eq_nil_or_bare p s⟩

/-! ## Words and lines -/

/-- The first word of a text has nothing but blanks before it and ends where a blank or nothing
follows. -/
structure IsFirstWord (word s : List Char) : Prop where
  parts : ∃ gap rest, s = gap ++ (word ++ rest) ∧ IsBlankText gap ∧
    ∀ c, rest.head? = some c → isBlank c = true
  ne_nil : word ≠ []
  solid : ∀ c ∈ word, isBlank c = false

theorem IsFirstWord.head?_words {word s : List Char} (first : IsFirstWord word s) :
    (words s).head? = some word := by
  obtain ⟨⟨gap, rest, rfl, blanks, stops⟩, ne, solid⟩ := first
  exact Text.head?_words blanks ne solid stops

theorem IsFirstWord.cons {word s : List Char} {c : Char} (blank : isBlank c = true)
    (first : IsFirstWord word s) : IsFirstWord word (c :: s) := by
  obtain ⟨gap, rest, rfl, blanks, stops⟩ := first.parts
  exact { first with
    parts := ⟨c :: gap, rest, rfl, List.forall_mem_cons.2 ⟨blank, blanks⟩, stops⟩ }

/-- A text that is not blank has a first word. -/
theorem exists_isFirstWord {s : List Char} (filled : ¬IsBlankText s) :
    ∃ word, IsFirstWord word s := by
  induction s using cut_induction (p := isBlank) with
  | free s solid =>
      have ne : s ≠ [] := by
        rintro rfl
        exact filled isBlankText_nil
      exact ⟨s, ⟨[], [], (List.append_nil s).symm, isBlankText_nil, by rintro _ ⟨⟩⟩, ne, solid⟩
  | cut piece c rest solid blank ih =>
      rcases eq_or_ne piece [] with rfl | ne
      · obtain ⟨word, first⟩ := ih fun blanks => filled (List.forall_mem_cons.2 ⟨blank, blanks⟩)
        exact ⟨word, first.cons blank⟩
      · refine ⟨piece, ⟨[], c :: rest, rfl, isBlankText_nil, ?_⟩, ne, solid⟩
        rintro _ ⟨⟩
        exact blank

theorem isFirstWord_iff {word s : List Char} :
    IsFirstWord word s ↔ (words s).head? = some word := by
  refine ⟨IsFirstWord.head?_words, fun head => ?_⟩
  have filled : ¬IsBlankText s := by
    intro blanks
    rw [words_eq_nil blanks] at head
    cases head
  obtain ⟨word', first⟩ := exists_isFirstWord filled
  cases head.symm.trans first.head?_words
  exact first

theorem isInfix_of_mem_words {word s : List Char} (mem : word ∈ words s) : word <:+: s :=
  (mem_split_iff.1 (List.mem_filter.1 mem).1).isInfix

/-- The lines of a text are those of its pieces that hold more than blanks, without the blanks at
their ends. -/
theorem mem_lines_iff {found s : List Char} :
    found ∈ lines s ↔ ∃ line, IsPiece isLineBreak line s ∧ trim line ≠ [] ∧ trim line = found := by
  simp only [lines, List.mem_filter, List.mem_map, mem_split_iff, decide_eq_true_eq]
  constructor
  · rintro ⟨⟨line, stands, rfl⟩, filled⟩
    exact ⟨line, stands, filled, rfl⟩
  · rintro ⟨line, stands, filled, rfl⟩
    exact ⟨⟨line, stands, rfl⟩, filled⟩

/-- Breaks keep the lines before them and behind them apart. -/
theorem lines_append_breaks (s : List Char) {breaks : List Char} (ne : breaks ≠ [])
    (cuts : ∀ c ∈ breaks, isLineBreak c = true) (t : List Char) :
    lines (s ++ breaks ++ t) = lines s ++ lines t := by
  induction breaks generalizing s with
  | nil => exact absurd rfl ne
  | cons c breaks ih =>
      have cut : isLineBreak c = true := cuts c List.mem_cons_self
      rw [List.append_assoc, List.cons_append, lines_append_break s cut]
      cases breaks with
      | nil => rfl
      | cons d breaks =>
          have rest := ih [] (List.cons_ne_nil d breaks) fun e mem => cuts e (.tail c mem)
          rw [List.nil_append] at rest
          rw [rest]
          rfl

/-! ## Occurrences -/

/-- The search finds the leftmost occurrence. -/
theorem after?_eq_some_iff {marker s rest : List Char} :
    after? marker s = some rest ↔ ∃ lead, s = lead ++ (marker ++ rest) ∧
      ∀ n < lead.length, ¬marker <+: s.drop n := by
  constructor
  · intro found
    induction s with
    | nil =>
        rw [after?] at found
        split at found
        next empty =>
          cases found
          exact ⟨[], by rw [empty]; rfl, fun n lt => absurd lt (Nat.not_lt_zero n)⟩
        next => cases found
    | cons c s ih =>
        rw [after?] at found
        split at found
        next here =>
          cases found
          obtain ⟨rest, eq⟩ := List.isPrefixOf_iff_prefix.1 here
          refine ⟨[], ?_, fun n lt => absurd lt (Nat.not_lt_zero n)⟩
          rw [← eq, List.drop_left, List.nil_append]
        next missing =>
          obtain ⟨lead, eq, leftmost⟩ := ih found
          refine ⟨c :: lead, congrArg (c :: ·) eq, fun n lt => ?_⟩
          cases n with
          | zero => exact fun here => missing (List.isPrefixOf_iff_prefix.2 here)
          | succ n => exact leftmost n (Nat.lt_of_succ_lt_succ lt)
  · rintro ⟨lead, rfl, leftmost⟩
    exact after?_append marker lead rest leftmost

/-! ## Bytes -/

theorem byteLength_eq_utf8ByteSize (s : List Char) :
    byteLength s = (String.ofList s).utf8ByteSize := by
  induction s with
  | nil => rfl
  | cons c s ih =>
      rw [byteLength_cons, ih, String.ofList_cons, String.utf8ByteSize_append,
        String.utf8ByteSize_singleton]

theorem byteLength_toList (s : String) : byteLength s.toList = s.utf8ByteSize := by
  rw [byteLength_eq_utf8ByteSize, String.ofList_toList]

theorem one_le_byteLength_iff {s : List Char} : 1 ≤ byteLength s ↔ s ≠ [] := by
  cases s with
  | nil => exact iff_of_false (Nat.not_succ_le_zero 0) fun ne => ne rfl
  | cons c s =>
      refine iff_of_true ?_ (List.cons_ne_nil c s)
      have pos : 1 ≤ c.utf8Size := c.utf8Size_pos
      exact Nat.le_add_right_of_le pos

theorem byteLength_take_lt {s : List Char} {n : Nat} (lt : n < s.length) :
    byteLength (s.take n) < byteLength s := by
  have whole : byteLength s = byteLength (s.take n) + byteLength (s.drop n) := by
    rw [← byteLength_append, List.take_append_drop]
  have pos : 1 ≤ byteLength (s.drop n) :=
    one_le_byteLength_iff.2 (mt List.drop_eq_nil_iff.1 (Nat.not_le.2 lt))
  omega

end NodeInventory.Text
