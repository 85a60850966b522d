import Mathlib.Data.List.Forall2

/-!
# Lists

General facts that the proofs share: lists that are related entry by entry, fronts that a test
accepts, joined pieces and the last entry in which something is found.
-/

namespace NodeInventory

variable {α β γ : Type _}

/-! ## Related lists -/

theorem exists_of_forall₂ {r : α → β → Prop} {as : List α} {bs : List β}
    (all : List.Forall₂ r as bs) {b : β} (mem : b ∈ bs) : ∃ a ∈ as, r a b := by
  induction all with
  | nil => cases mem
  | cons first _ ih =>
      rcases List.mem_cons.1 mem with rfl | mem
      · exact ⟨_, List.mem_cons_self, first⟩
      · obtain ⟨a, mem, later⟩ := ih mem
        exact ⟨a, List.mem_cons_of_mem _ mem, later⟩

theorem exists_forall₂ {r : α → β → Prop} {as : List α} (related : ∀ a ∈ as, ∃ b, r a b) :
    ∃ bs, List.Forall₂ r as bs := by
  induction as with
  | nil => exact ⟨[], .nil⟩
  | cons a as ih =>
      obtain ⟨⟨b, first⟩, later⟩ := List.forall_mem_cons.1 related
      obtain ⟨bs, later⟩ := ih later
      exact ⟨b :: bs, .cons first later⟩

theorem forall₂_comp_iff {r : α → β → Prop} {s : β → γ → Prop} {as : List α} {cs : List γ} :
    List.Forall₂ (fun a c => ∃ b, r a b ∧ s b c) as cs ↔
      ∃ bs, List.Forall₂ r as bs ∧ List.Forall₂ s bs cs := by
  constructor
  · intro all
    induction all with
    | nil => exact ⟨[], .nil, .nil⟩
    | cons first _ ih =>
        obtain ⟨b, left, right⟩ := first
        obtain ⟨bs, lefts, rights⟩ := ih
        exact ⟨b :: bs, .cons left lefts, .cons right rights⟩
  · rintro ⟨bs, lefts, rights⟩
    induction lefts generalizing cs with
    | nil =>
        cases rights
        exact .nil
    | cons left _ ih =>
        cases rights with
        | cons right rights => exact .cons ⟨_, left, right⟩ (ih rights)

/-! ## Fronts -/

section Fronts

variable {p : α → Bool} {s t : List α}

/-- The test goes no further than a front behind which it fails at once. -/
theorem dropWhile_append_of_stop (stops : ∀ a ∈ t.head?, p a = false) :
    (s ++ t).dropWhile p = s.dropWhile p ++ t := by
  induction s with
  | nil =>
      cases t with
      | nil => rfl
      | cons a t => exact List.dropWhile_cons_of_neg (by simp [stops a rfl])
  | cons b s ih =>
      by_cases accepted : p b = true
      · rw [List.cons_append, List.dropWhile_cons_of_pos accepted, ih,
          List.dropWhile_cons_of_pos accepted]
      · rw [List.cons_append, List.dropWhile_cons_of_neg accepted,
          List.dropWhile_cons_of_neg accepted]
        rfl

/-- A front that the test accepts, and nothing behind it, is what the test cuts off. -/
theorem cut_append_of_stop (all : ∀ a ∈ s, p a = true) (stops : ∀ a ∈ t.head?, p a = false) :
    (s ++ t).takeWhile p = s ∧ (s ++ t).dropWhile p = t := by
  rw [List.takeWhile_append_of_pos all, List.dropWhile_append_of_pos all]
  cases t with
  | nil => exact ⟨List.append_nil s, rfl⟩
  | cons a t =>
      have refused : ¬p a = true := by
        rw [stops a rfl]
        exact Bool.false_ne_true
      rw [List.takeWhile_cons_of_neg refused, List.dropWhile_cons_of_neg refused, List.append_nil]
      exact ⟨rfl, rfl⟩

theorem refused_of_head? (head : ∃ a, t.head? = some a ∧ p a = false) :
    ∀ b ∈ t.head?, p b = false := by
  intro b mem
  obtain ⟨a, eq, refused⟩ := head
  cases eq.symm.trans mem
  exact refused

end Fronts

/-! ## Joined pieces -/

/-- What is joined comes from the joints or from the pieces. -/
theorem mem_of_mem_intercalate {joint : List α} {pieces : List (List α)} {a : α}
    (mem : a ∈ joint.intercalate pieces) : a ∈ joint ∨ ∃ piece ∈ pieces, a ∈ piece := by
  induction pieces with
  | nil => cases mem
  | cons first rest ih =>
      cases rest with
      | nil => exact .inr ⟨first, List.mem_cons_self, by simpa [List.intercalate] using mem⟩
      | cons second rest =>
          rw [List.intercalate_cons_cons] at mem
          rcases List.mem_append.1 mem with mem | later
          · rcases List.mem_append.1 mem with mem | mem
            · exact .inr ⟨first, List.mem_cons_self, mem⟩
            · exact .inl mem
          · exact (ih later).imp_right fun ⟨piece, among, mem⟩ =>
              ⟨piece, List.mem_cons_of_mem _ among, mem⟩

/-! ## The last that is found -/

/-- What nothing is found in can be left out. -/
theorem filterMap_filter_of_none {p : α → Bool} {f : α → Option β}
    (skipped : ∀ a, p a = false → f a = none) (l : List α) :
    (l.filter p).filterMap f = l.filterMap f := by
  rw [List.filterMap_filter]
  congr 1
  funext a
  cases eq : p a with
  | true => rfl
  | false => exact (skipped a eq).symm

section Last

variable {f : α → Option β} {l : List α}

theorem getLast?_filterMap_cons (a : α) (l : List α) :
    ((a :: l).filterMap f).getLast? = (l.filterMap f).getLast?.or (f a) := by
  rw [List.getLast?_filterMap, List.reverse_cons, List.findSome?_append,
    List.findSome?_singleton, List.getLast?_filterMap]

theorem getLast?_filterMap_eq_none_iff :
    (l.filterMap f).getLast? = none ↔ ∀ a ∈ l, f a = none := by
  rw [List.getLast?_eq_none_iff, List.filterMap_eq_nil_iff]

theorem getLast?_filterMap_eq_some_iff {b : β} :
    (l.filterMap f).getLast? = some b ↔ ∃ before a behind, l = before ++ a :: behind ∧
      f a = some b ∧ ∀ later ∈ behind, f later = none := by
  rw [List.getLast?_filterMap, List.findSome?_eq_some_iff]
  constructor
  · rintro ⟨behind, a, before, split, here, none_later⟩
    rw [List.reverse_eq_append_iff, List.reverse_cons, List.append_assoc] at split
    exact ⟨_, a, _, split, here, fun later mem => none_later later (List.mem_reverse.1 mem)⟩
  · rintro ⟨before, a, behind, rfl, here, none_later⟩
    refine ⟨behind.reverse, a, before.reverse, by simp, here, fun later mem => ?_⟩
    exact none_later later (List.mem_reverse.1 mem)

end Last

end NodeInventory
