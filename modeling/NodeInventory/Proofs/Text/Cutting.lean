import Mathlib.Data.List.TakeWhile
import NodeInventory.Proofs.List
import NodeInventory.Text.Blank
import NodeInventory.Text.Search

/-!
# Cutting text where its parts are known

What splitting, stripping and searching make of a text that is put together from known parts.  A
part that the test refuses at both ends stays whole; of the rest only the accepted ends are lost.
-/

namespace NodeInventory.Text

variable {α : Type _} {p : α → Bool}

/-! ## Pieces -/

theorem split_cons_of_neg {a : α} {s piece : List α} {rest : List (List α)} (h : p a = false)
    (eq : split p s = piece :: rest) : split p (a :: s) = (a :: piece) :: rest := by
  simp only [split, h, eq]
  rfl

/-- What a test refuses everywhere has no cuts. -/
theorem refused_of_any {s : List α} (none_accepted : s.any p = false) : ∀ a ∈ s, p a = false :=
  fun a mem => eq_false_of_ne_true (List.any_eq_false.1 none_accepted a mem)

/-- A text without cuts is one piece. -/
theorem split_eq_singleton {s : List α} (free : ∀ a ∈ s, p a = false) : split p s = [s] := by
  induction s with
  | nil => rfl
  | cons a s ih =>
      exact split_cons_of_neg (free a List.mem_cons_self)
        (ih fun b mem => free b (List.mem_cons_of_mem _ mem))

/-- The first cut ends the first piece. -/
theorem split_append_cons {s : List α} (free : ∀ a ∈ s, p a = false) {b : α} (cut : p b = true)
    (t : List α) : split p (s ++ b :: t) = s :: split p t := by
  induction s with
  | nil => exact split_cons_of_pos cut t
  | cons a s ih =>
      exact split_cons_of_neg (free a List.mem_cons_self)
        (ih fun b mem => free b (List.mem_cons_of_mem _ mem))

/-- A cut keeps the pieces before it and behind it apart. -/
theorem split_append_break (s : List α) {b : α} (cut : p b = true) (t : List α) :
    split p (s ++ b :: t) = split p s ++ split p t := by
  induction s with
  | nil => exact split_cons_of_pos cut t
  | cons a s ih =>
      by_cases accepted : p a = true
      · rw [List.cons_append, split_cons_of_pos accepted, split_cons_of_pos accepted, ih,
          List.cons_append]
      · obtain ⟨piece, rest, eq⟩ := List.exists_cons_of_ne_nil (split_ne_nil p s)
        have refused := eq_false_of_ne_true accepted
        rw [eq, List.cons_append] at ih
        rw [List.cons_append, split_cons_of_neg refused ih, split_cons_of_neg refused eq,
          List.cons_append]

/-- No piece holds an element at which the text is cut. -/
theorem refused_of_mem_split {s piece : List α} (mem : piece ∈ split p s) :
    ∀ a ∈ piece, p a = false := by
  induction s generalizing piece with
  | nil =>
      cases List.mem_singleton.1 mem
      exact fun a mem => by cases mem
  | cons b s ih =>
      by_cases accepted : p b = true
      · rw [split_cons_of_pos accepted] at mem
        rcases List.mem_cons.1 mem with rfl | mem
        · exact fun a mem => by cases mem
        · exact ih mem
      · obtain ⟨first, rest, eq⟩ := List.exists_cons_of_ne_nil (split_ne_nil p s)
        rw [split_cons_of_neg (eq_false_of_ne_true accepted) eq] at mem
        rcases List.mem_cons.1 mem with rfl | later
        · intro a mem
          rcases List.mem_cons.1 mem with rfl | mem
          · exact eq_false_of_ne_true accepted
          · exact ih (eq ▸ List.mem_cons_self) a mem
        · exact ih (eq ▸ List.mem_cons_of_mem first later)

/-! ## Ends -/

/-- A part that the test accepts at neither end. -/
structure Bare (p : α → Bool) (s : List α) : Prop where
  first : ∃ a, s.head? = some a ∧ p a = false
  last : ∃ a, s.getLast? = some a ∧ p a = false

theorem Bare.of_forall {s : List α} (ne : s ≠ []) (refused : ∀ a ∈ s, p a = false) : Bare p s where
  first := ⟨s.head ne, List.head?_eq_some_head ne, refused _ (List.head_mem ne)⟩
  last := ⟨s.getLast ne, List.getLast?_eq_some_getLast ne, refused _ (List.getLast_mem ne)⟩

/-- `s` without the accepted elements at its end. -/
def stripEnd (p : α → Bool) (s : List α) : List α := (s.reverse.dropWhile p).reverse

theorem stripEnd_prefix (s : List α) : stripEnd p s <+: s := by
  rw [← List.reverse_reverse s, stripEnd, List.reverse_reverse, List.reverse_prefix]
  exact List.dropWhile_suffix p

theorem stripEnd_eq_nil {s : List α} (accepted : ∀ a ∈ s, p a = true) : stripEnd p s = [] := by
  have none_left : (s.reverse ++ []).dropWhile p = [] :=
    List.dropWhile_append_of_pos fun a mem => accepted a (List.mem_reverse.1 mem)
  rw [List.append_nil] at none_left
  rw [stripEnd, none_left]
  rfl

theorem stripEnd_append_of_last {s t : List α} (h : ∃ a, s.getLast? = some a ∧ p a = false) :
    stripEnd p (s ++ t) = s ++ stripEnd p t := by
  rw [← List.head?_reverse] at h
  rw [stripEnd, List.reverse_append, dropWhile_append_of_stop (refused_of_head? h),
    List.reverse_append, List.reverse_reverse, stripEnd]

theorem strip_eq_stripEnd (s : List α) : strip p s = stripEnd p (s.dropWhile p) := rfl

theorem strip_eq_nil {s : List α} (accepted : ∀ a ∈ s, p a = true) : strip p s = [] := by
  rw [strip_eq_stripEnd]
  exact stripEnd_eq_nil fun a mem => accepted a ((List.dropWhile_suffix p).subset mem)

theorem mem_of_mem_strip {s : List α} {a : α} (mem : a ∈ strip p s) : a ∈ s := by
  have kept : stripEnd p (s.dropWhile p) <+: s.dropWhile p := stripEnd_prefix (s.dropWhile p)
  exact (List.dropWhile_suffix p).subset (kept.subset mem)

/-- Stripping stops at a bare part from both sides. -/
theorem strip_append {core : List α} (bare : Bare p core) (s t : List α) :
    strip p (s ++ core ++ t) = s.dropWhile p ++ core ++ stripEnd p t := by
  have first : ∃ a, (core ++ t).head? = some a ∧ p a = false := by
    obtain ⟨a, head, refused⟩ := bare.first
    exact ⟨a, by rw [List.head?_append, head]; rfl, refused⟩
  have last : ∃ a, (s.dropWhile p ++ core).getLast? = some a ∧ p a = false := by
    obtain ⟨a, last, refused⟩ := bare.last
    exact ⟨a, by rw [List.getLast?_append, last]; rfl, refused⟩
  rw [List.append_assoc, strip_eq_stripEnd, dropWhile_append_of_stop (refused_of_head? first),
    ← List.append_assoc, stripEnd_append_of_last last]

theorem strip_eq_self {s : List α} (bare : Bare p s) : strip p s = s := by
  have stripped := strip_append bare [] []
  rw [List.append_nil] at stripped
  exact stripped.trans (List.append_nil s)

/-- What is lost at the end is accepted throughout. -/
theorem exists_stripEnd (p : α → Bool) (s : List α) :
    ∃ behind, (∀ a ∈ behind, p a = true) ∧ s = stripEnd p s ++ behind := by
  refine ⟨(s.reverse.takeWhile p).reverse, fun a mem => ?_, ?_⟩
  · exact List.mem_takeWhile_imp (List.mem_reverse.1 mem)
  · rw [stripEnd, ← List.reverse_append, List.takeWhile_append_dropWhile, List.reverse_reverse]

/-- What is lost at the two ends is accepted throughout. -/
theorem exists_strip (p : α → Bool) (s : List α) :
    ∃ before behind, (∀ a ∈ before, p a = true) ∧ (∀ a ∈ behind, p a = true) ∧
      s = before ++ (strip p s ++ behind) := by
  obtain ⟨behind, accepted, eq⟩ := exists_stripEnd p (s.dropWhile p)
  refine ⟨s.takeWhile p, behind, fun a mem => List.mem_takeWhile_imp mem, accepted, ?_⟩
  rw [strip_eq_stripEnd, ← eq, List.takeWhile_append_dropWhile]

/-- What is kept of a text that is not accepted throughout ends in something refused. -/
theorem exists_last_of_stripEnd {s : List α} (more : ∃ a ∈ s, p a = false) :
    ∃ a, (stripEnd p s).getLast? = some a ∧ p a = false := by
  have head := List.head?_dropWhile_not p s.reverse
  rw [stripEnd, List.getLast?_reverse]
  cases first : (s.reverse.dropWhile p).head? with
  | some a =>
      rw [first] at head
      exact ⟨a, rfl, head⟩
  | none =>
      have all := List.dropWhile_eq_nil_iff.1 (List.head?_eq_none_iff.1 first)
      obtain ⟨a, mem, refused⟩ := more
      exact absurd (all a (List.mem_reverse.2 mem)) (ne_true_of_eq_false refused)

/-- What stands in front of a text that is not accepted throughout is kept. -/
theorem stripEnd_append_of_exists (s : List α) {t : List α} (more : ∃ a ∈ t, p a = false) :
    stripEnd p (s ++ t) = s ++ stripEnd p t := by
  obtain ⟨behind, accepted, eq⟩ := exists_stripEnd p t
  have last : ∃ a, (s ++ stripEnd p t).getLast? = some a ∧ p a = false := by
    obtain ⟨a, last, refused⟩ := exists_last_of_stripEnd more
    exact ⟨a, by rw [List.getLast?_append, last]; rfl, refused⟩
  calc stripEnd p (s ++ t) = stripEnd p (s ++ stripEnd p t ++ behind) := by
        rw [List.append_assoc, ← eq]
    _ = s ++ stripEnd p t := by
        rw [stripEnd_append_of_last last, stripEnd_eq_nil accepted, List.append_nil]

/-- Stripping leaves nothing, or a part that it does not shorten. -/
theorem strip_eq_nil_or_bare (p : α → Bool) (s : List α) :
    strip p s = [] ∨ Bare p (strip p s) := by
  rw [strip_eq_stripEnd]
  cases eq : s.dropWhile p with
  | nil => exact .inl rfl
  | cons a rest =>
      have refused : p a = false := by
        have head := List.head?_dropWhile_not p s
        rw [eq] at head
        exact head
      refine .inr ⟨⟨a, ?_, refused⟩, exists_last_of_stripEnd ⟨a, List.mem_cons_self, refused⟩⟩
      rw [← List.singleton_append, stripEnd_append_of_last ⟨a, rfl, refused⟩]
      rfl

theorem strip_strip (p : α → Bool) (s : List α) : strip p (strip p s) = strip p s := by
  rcases strip_eq_nil_or_bare p s with empty | bare
  · rw [empty, strip_nil]
  · exact strip_eq_self bare

theorem strip_eq_nil_iff {s : List α} : strip p s = [] ↔ ∀ a ∈ s, p a = true := by
  refine ⟨fun empty a mem => ?_, strip_eq_nil⟩
  obtain ⟨before, behind, accepted, accepted', eq⟩ := exists_strip p s
  rw [empty, List.nil_append] at eq
  rw [eq] at mem
  exact (List.mem_append.1 mem).elim (accepted a) (accepted' a)

/-- A change of elements that the test does not see. -/
theorem strip_map {f : α → α} (unseen : ∀ a, p (f a) = p a) (s : List α) :
    strip p (s.map f) = (strip p s).map f := by
  have same : p ∘ f = p := funext unseen
  rw [strip, List.dropWhile_map, same, ← List.map_reverse, List.dropWhile_map, same,
    ← List.map_reverse, strip]

theorem strip_eq_self_of_refused {s : List α} (refused : ∀ a ∈ s, p a = false) :
    strip p s = s := by
  cases s with
  | nil => exact strip_nil p
  | cons a s => exact strip_eq_self (.of_forall (List.cons_ne_nil a s) refused)

/-! ## Blank texts -/

theorem isBlankText_nil : IsBlankText [] := by rintro _ ⟨⟩

theorem isBlankText_singleton {c : Char} (blank : isBlank c = true) : IsBlankText [c] :=
  List.forall_mem_singleton.2 blank

theorem IsBlankText.append {s t : List Char} (blank : IsBlankText s) (blank' : IsBlankText t) :
    IsBlankText (s ++ t) :=
  fun c mem => (List.mem_append.1 mem).elim (blank c) (blank' c)

theorem trim_eq_nil {s : List Char} (blank : IsBlankText s) : trim s = [] := strip_eq_nil blank

theorem trim_eq_nil_iff {s : List Char} : trim s = [] ↔ IsBlankText s := strip_eq_nil_iff

/-- Blanks around a text are lost with those it has itself. -/
theorem trim_pad {before behind : List Char} (blank : IsBlankText before)
    (blank' : IsBlankText behind) (s : List Char) : trim (before ++ (s ++ behind)) = trim s := by
  rcases strip_eq_nil_or_bare isBlank s with empty | bare
  · have blank_s : IsBlankText s := trim_eq_nil_iff.1 empty
    exact (trim_eq_nil (blank.append (blank_s.append blank'))).trans empty.symm
  · obtain ⟨first, last, blank_first, blank_last, eq⟩ := exists_strip isBlank s
    have whole : before ++ (s ++ behind) =
        before ++ first ++ strip isBlank s ++ (last ++ behind) := by
      conv => lhs; rw [eq]
      simp only [List.append_assoc]
    have front : (before ++ first).dropWhile isBlank = [] :=
      List.dropWhile_eq_nil_iff.2 (blank.append blank_first)
    have back : stripEnd isBlank (last ++ behind) = [] :=
      stripEnd_eq_nil (IsBlankText.append blank_last blank')
    rw [trim, whole, strip_append bare, front, back, List.append_nil]
    rfl

/-! ## Words and lines -/

theorem words_cons_of_isBlank {c : Char} (blank : isBlank c = true) (s : List Char) :
    words (c :: s) = words s := by
  rw [words, split_cons_of_pos blank, List.filter_cons_of_neg (by simp), ← words]

/-- No word reaches across a blank. -/
theorem words_append_blank (s : List Char) {c : Char} (blank : isBlank c = true) (t : List Char) :
    words (s ++ c :: t) = words s ++ words t := by
  rw [words, split_append_break s blank, List.filter_append, ← words, ← words]

theorem words_append_of_blank_left {s : List Char} (blank : IsBlankText s) (t : List Char) :
    words (s ++ t) = words t := by
  induction s with
  | nil => rfl
  | cons c s ih =>
      rw [List.cons_append, words_cons_of_isBlank (blank c List.mem_cons_self)]
      exact ih fun d mem => blank d (List.mem_cons_of_mem _ mem)

theorem words_eq_nil {s : List Char} (blank : IsBlankText s) : words s = [] := by
  have none_left := words_append_of_blank_left blank []
  rwa [List.append_nil] at none_left

theorem words_append_of_blank_right (s : List Char) {t : List Char} (blank : IsBlankText t) :
    words (s ++ t) = words s := by
  cases t with
  | nil => rw [List.append_nil]
  | cons c t =>
      have rest : IsBlankText t := fun d mem => blank d (List.mem_cons_of_mem _ mem)
      rw [words_append_blank s (blank c List.mem_cons_self), words_eq_nil rest, List.append_nil]

/-- A gap keeps the words before it and behind it apart. -/
theorem words_append_gap (s : List Char) {gap : List Char} (ne : gap ≠ []) (blank : IsBlankText gap)
    (t : List Char) : words (s ++ gap ++ t) = words s ++ words t := by
  obtain ⟨c, gap, rfl⟩ := List.exists_cons_of_ne_nil ne
  obtain ⟨first, rest⟩ := List.forall_mem_cons.1 blank
  rw [List.append_assoc, List.cons_append, words_append_blank s first,
    words_append_of_blank_left rest]

/-- The blanks around a text are around its words. -/
theorem words_trim (s : List Char) : words (trim s) = words s := by
  obtain ⟨before, behind, blank, blank', eq⟩ := exists_strip isBlank s
  have kept := words_append_of_blank_right (trim s) blank'
  rw [← words_append_of_blank_left blank, trim, ← eq] at kept
  exact kept.symm

/-- The first word of a text comes after its blanks and reaches up to the next one. -/
theorem head?_words {gap word rest : List Char} (blanks : IsBlankText gap) (ne : word ≠ [])
    (solid : ∀ c ∈ word, isBlank c = false) (stops : ∀ c, rest.head? = some c → isBlank c = true) :
    (words (gap ++ (word ++ rest))).head? = some word := by
  induction gap with
  | cons c gap ih =>
      rw [List.cons_append, words_cons_of_isBlank (blanks c List.mem_cons_self)]
      exact ih fun d mem => blanks d (List.mem_cons_of_mem _ mem)
  | nil =>
      have pieces : ∃ later, split isBlank (word ++ rest) = word :: later := by
        cases rest with
        | nil =>
            rw [List.append_nil]
            exact ⟨[], split_eq_singleton solid⟩
        | cons c rest => exact ⟨_, split_append_cons solid (stops c rfl) rest⟩
      obtain ⟨later, eq⟩ := pieces
      rw [List.nil_append, words, eq, List.filter_cons, if_pos (decide_eq_true ne)]
      rfl

/-- A line, up to a break or the end of the text. -/
theorem lines_append {line after : List Char} (unbroken : ∀ c ∈ line, isLineBreak c = false)
    (ends : ∀ c, after.head? = some c → isLineBreak c = true) :
    ∃ later, lines (line ++ after) = [trim line].filter (· ≠ []) ++ later := by
  cases after with
  | nil =>
      refine ⟨[], ?_⟩
      rw [List.append_nil, lines, split_eq_singleton unbroken, List.append_nil]
      rfl
  | cons c after =>
      refine ⟨lines after, ?_⟩
      rw [lines, split_append_cons unbroken (ends c rfl), List.map_cons, ← List.singleton_append,
        List.filter_append, ← lines]

theorem lines_append_cons {line : List Char} (unbroken : ∀ c ∈ line, isLineBreak c = false)
    {c : Char} (cut : isLineBreak c = true) (rest : List Char) :
    lines (line ++ c :: rest) = [trim line].filter (· ≠ []) ++ lines rest := by
  rw [lines, split_append_cons unbroken cut, List.map_cons, ← List.singleton_append,
    List.filter_append, ← lines]

/-- No line reaches across a break. -/
theorem lines_append_break (s : List Char) {c : Char} (cut : isLineBreak c = true)
    (t : List Char) : lines (s ++ c :: t) = lines s ++ lines t := by
  rw [lines, split_append_break s cut, List.map_append, List.filter_append, ← lines, ← lines]

/-- A word is not empty and holds no blank. -/
theorem solid_of_mem_words {s word : List Char} (mem : word ∈ words s) :
    word ≠ [] ∧ ∀ c ∈ word, isBlank c = false := by
  obtain ⟨mem, filled⟩ := List.mem_filter.1 mem
  exact ⟨of_decide_eq_true filled, refused_of_mem_split mem⟩

/-! ## Occurrences -/

/-- A marker that occurs behind `lead`, and nowhere further to the left, is found there. -/
theorem after?_append (marker lead rest : List Char)
    (first : ∀ n < lead.length, ¬marker <+: (lead ++ (marker ++ rest)).drop n) :
    after? marker (lead ++ (marker ++ rest)) = some rest := by
  induction lead with
  | nil =>
      rw [List.nil_append]
      cases eq : marker ++ rest with
      | nil =>
          obtain ⟨rfl, rfl⟩ := List.append_eq_nil_iff.1 eq
          rfl
      | cons c s =>
          have found : marker.isPrefixOf (c :: s) = true := by
            rw [← eq]
            exact List.isPrefixOf_iff_prefix.2 (List.prefix_append ..)
          rw [after?, if_pos found, ← eq, List.drop_left]
  | cons c lead ih =>
      have missing : ¬marker.isPrefixOf (c :: (lead ++ (marker ++ rest))) = true :=
        fun found => first 0 (Nat.succ_pos _) (List.isPrefixOf_iff_prefix.1 found)
      rw [List.cons_append, after?, if_neg missing]
      exact ih fun n lt => first (n + 1) (Nat.succ_lt_succ lt)

end NodeInventory.Text
