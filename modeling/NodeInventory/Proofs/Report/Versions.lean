import Mathlib.Data.List.Sort
import NodeInventory.Versions

/-!
# Versions as a map

What a key leads to says all about `Versions`: maps that agree on every key are equal, and a map
made of a list leads each key to the value of its last entry in the list.
-/

namespace NodeInventory.Versions

/-! ## Looking up -/

theorem lookup_cons_eq {key : String} {entry : String × String} (same : key = entry.1)
    (rest : List (String × String)) : (entry :: rest).lookup key = some entry.2 := by
  rw [same]
  exact List.lookup_cons_self

theorem lookup_cons_ne {key : String} {entry : String × String} (other : key ≠ entry.1)
    (rest : List (String × String)) : (entry :: rest).lookup key = rest.lookup key := by
  rw [List.lookup_cons, beq_false_of_ne other]

theorem lookup_place (key value wanted : String) (entries : List (String × String)) :
    (place key value entries).lookup wanted =
      if wanted = key then some value else entries.lookup wanted := by
  induction entries with
  | nil =>
      rw [place]
      split
      next same => exact lookup_cons_eq same []
      next other => exact lookup_cons_ne other []
  | cons entry entries ih =>
      rw [place]
      split
      next =>
        split
        next same => exact lookup_cons_eq same _
        next other => exact lookup_cons_ne other _
      next not_below =>
      split
      next above =>
        by_cases here : wanted = entry.1
        · have other : wanted ≠ key := by
            rintro rfl
            rw [here] at above
            exact String.lt_irrefl _ above
          rw [lookup_cons_eq here, lookup_cons_eq here, if_neg other]
        · rw [lookup_cons_ne here, lookup_cons_ne here, ih]
      next not_above =>
        have eq : key = entry.1 :=
          String.le_antisymm (String.not_lt.1 not_above) (String.not_lt.1 not_below)
        split
        next same => exact lookup_cons_eq same _
        next other => rw [lookup_cons_ne other, lookup_cons_ne (eq ▸ other)]

theorem get?_insert (versions : Versions) (key value wanted : String) :
    (versions.insert key value).get? wanted =
      if wanted = key then some value else versions.get? wanted :=
  lookup_place key value wanted versions.entries

/-- The value of the last entry with a key. -/
def lastValue? (entries : List (String × String)) (key : String) : Option String :=
  entries.reverse.lookup key

theorem get?_ofList (entries : List (String × String)) (wanted : String) :
    (ofList entries).get? wanted = lastValue? entries wanted := by
  have fold : ∀ versions : Versions,
      (entries.foldl (fun versions entry => versions.insert entry.1 entry.2) versions).get? wanted =
        (lastValue? entries wanted).or (versions.get? wanted) := by
    induction entries with
    | nil => exact fun _ => rfl
    | cons entry entries ih =>
        intro versions
        rw [List.foldl_cons, ih, get?_insert, lastValue?, lastValue?, List.reverse_cons,
          List.lookup_append, Option.or_assoc]
        congr 1
        split
        next same => rw [lookup_cons_eq same, Option.some_or]
        next other => rw [lookup_cons_ne other, List.lookup_nil, Option.none_or]
  exact (fold empty).trans (Option.or_none ..)

/-! ## Entries -/

theorem get?_eq_some_iff {versions : Versions} {key value : String} :
    versions.get? key = some value ↔ (key, value) ∈ versions.entries := by
  rw [get?, List.lookup_eq_some_iff]
  constructor
  · rintro ⟨before, behind, eq, -⟩
    rw [eq]
    exact List.mem_append_right before List.mem_cons_self
  · intro mem
    obtain ⟨before, behind, eq⟩ := List.append_of_mem mem
    refine ⟨before, behind, eq, fun earlier mem => bne_iff_ne.2 ?_⟩
    have ascending := versions.ascending
    rw [eq] at ascending
    have below := (List.pairwise_append.1 ascending).2.2 earlier mem _ List.mem_cons_self
    exact (String.ne_of_lt below).symm

/-- Maps that agree on every key are equal. -/
theorem eq_of_get? {v w : Versions} (agree : ∀ key, v.get? key = w.get? key) : v = w := by
  have antisymm : Std.Antisymm fun a b : String × String => a.1 < b.1 :=
    ⟨fun _ _ lt gt => absurd gt (String.lt_asymm lt)⟩
  have irrefl : Std.Irrefl fun a b : String × String => a.1 < b.1 :=
    ⟨fun _ => String.lt_irrefl _⟩
  refine ext (v.ascending.eq_of_mem_iff w.ascending fun entry => ?_)
  rw [← get?_eq_some_iff, ← get?_eq_some_iff, agree]

/-- The last entry of a list with a key counts. -/
theorem get?_ofList_eq_some_iff {entries : List (String × String)} {key value : String} :
    (ofList entries).get? key = some value ↔
      ∃ before behind, entries = before ++ (key, value) :: behind ∧
        ∀ entry ∈ behind, entry.1 ≠ key := by
  rw [get?_ofList, lastValue?, List.lookup_eq_some_iff]
  constructor
  · rintro ⟨behind, before, eq, others⟩
    refine ⟨before.reverse, behind.reverse, ?_, fun entry mem same => ?_⟩
    · simpa using congrArg List.reverse eq
    · have other := others entry (List.mem_reverse.1 mem)
      simp [same] at other
  · rintro ⟨before, behind, rfl, others⟩
    refine ⟨behind.reverse, before.reverse, by simp, fun entry mem => ?_⟩
    exact bne_iff_ne.2 (others entry (List.mem_reverse.1 mem)).symm

theorem mem_of_mem_ofList {entries : List (String × String)} {entry : String × String}
    (mem : entry ∈ (ofList entries).entries) : entry ∈ entries := by
  rw [← get?_eq_some_iff, get?_ofList_eq_some_iff] at mem
  obtain ⟨before, behind, rfl, -⟩ := mem
  exact List.mem_append_right before List.mem_cons_self

end NodeInventory.Versions
