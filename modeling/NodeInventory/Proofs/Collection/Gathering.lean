import NodeInventory.Collection
import Mathlib.Data.List.Basic

/-!
# Replies that arrive

The commands of a survey are started in the order of the list, each once.  Their replies arrive in
an order of their own, and each fills the place of its question and no other.  So, once all are
there, the table does not show in which order they came.
-/

namespace NodeInventory

open Command

/-! ## Asking -/

section Asking

variable {runner : Runner} {before : Nat}

theorem ask_run (tools : List Tool) (calls : List Invocation) :
    (ask runner before tools).run calls =
      pure (tools.mapIdx fun i tool => (tool, runner (before + (calls.length + i)) tool.invocation),
        calls ++ tools.map Tool.invocation) := by
  induction tools generalizing calls with
  | nil => simp [ask]
  | cons tool tools ih =>
      have called : (runner.call before tool.invocation).run calls =
          pure (runner (before + calls.length) tool.invocation, calls ++ [tool.invocation]) := rfl
      simp only [ask] at ih
      simp only [ask, List.mapM_cons, bind_assoc, pure_bind, StateT.run_bind, called, ih]
      simp only [StateT.run_pure, List.mapIdx_cons, List.length_append, List.length_singleton,
        Nat.add_assoc, Nat.add_comm 1, Nat.add_zero, List.map_cons, List.append_assoc,
        List.singleton_append]

/-- The commands are started in the order of the list, each once. -/
theorem calls_survey (tools : List Tool) :
    (survey runner before tools).calls = tools.map Tool.invocation := by
  rw [survey, ask_run]
  rfl

end Asking

/-! ## The order of the replies -/

namespace ToolReplies

variable {replies : ToolReplies}

theorem enqueue_perm (i : Nat) (places : List Nat) :
    (replies.enqueue i places).Perm (i :: places) := by
  induction places with
  | nil => exact .refl _
  | cons j places ih =>
      rw [enqueue]
      split
      · exact .refl _
      · exact (ih.cons j).trans (.swap i j places)

theorem foldl_enqueue_perm (replies : ToolReplies) (order places : List Nat) :
    (order.foldl (fun places i => replies.enqueue i places) places).Perm (order ++ places) := by
  induction order generalizing places with
  | nil => exact .refl _
  | cons i order ih =>
      rw [List.foldl_cons]
      exact (ih _).trans (((enqueue_perm i places).append_left order).trans List.perm_middle)

/-- Every place has its reply. -/
theorem arrivals_perm : replies.arrivals.Perm (List.range replies.length) := by
  have all := replies.foldl_enqueue_perm (List.range replies.length) []
  rwa [List.append_nil] at all

/-! ## The table -/

/-- What becomes of the tool at a place. -/
def told (entry : Tool × Reply) : Tool × Outcome :=
  (entry.1, Outcome.ofResult entry.1 entry.2.result)

@[simp] theorem length_arrive (table : List (Option (Tool × Outcome))) (i : Nat) :
    (replies.arrive table i).length = table.length := List.length_set ..

theorem length_foldl_arrive (table : List (Option (Tool × Outcome))) (order : List Nat) :
    (order.foldl replies.arrive table).length = table.length := by
  induction order generalizing table with
  | nil => rfl
  | cons i order ih => rw [List.foldl_cons, ih, length_arrive]

/-- A reply fills its own place and leaves all others as they are. -/
theorem getElem?_arrive {table : List (Option (Tool × Outcome))} {i : Nat}
    (within : i < table.length) (j : Nat) :
    (replies.arrive table j)[i]? = if i = j then some (replies[i]?.map told) else table[i]? := by
  by_cases same : i = j
  · subst same
    rw [arrive, List.getElem?_set_self within, if_pos rfl]
    rfl
  · rw [arrive, List.getElem?_set_ne (Ne.symm same), if_neg same]

theorem getElem?_foldl_arrive {table : List (Option (Tool × Outcome))} {i : Nat}
    (within : i < table.length) (order : List Nat) :
    (order.foldl replies.arrive table)[i]? =
      if i ∈ order then some (replies[i]?.map told) else table[i]? := by
  induction order generalizing table with
  | nil => simp
  | cons j order ih =>
      rw [List.foldl_cons, ih (by simpa using within), getElem?_arrive within]
      by_cases later : i ∈ order <;> by_cases same : i = j <;> simp [later, same]

/-- Once all replies are there, the table has what they come to, in whatever order they came. -/
theorem gather_of_perm {order : List Nat} (all : order.Perm (List.range replies.length)) :
    replies.gather order = replies.map (some ∘ told) := by
  refine List.ext_getElem? fun i => ?_
  rw [List.getElem?_map, gather]
  by_cases within : i < replies.length
  · have arrived : i ∈ order := all.mem_iff.2 (List.mem_range.2 within)
    rw [getElem?_foldl_arrive (by simpa using within), if_pos arrived,
      List.getElem?_eq_getElem within]
    rfl
  · have beyond : replies.length ≤ i := Nat.le_of_not_lt within
    rw [List.getElem?_eq_none (by simpa [length_foldl_arrive] using beyond),
      List.getElem?_eq_none beyond]
    rfl

end ToolReplies

/-! ## The outcomes -/

section Outcomes

variable {runner : Runner} {before : Nat} {tools : List Tool}

/-- The replies to a survey. -/
def repliesOf (runner : Runner) (before : Nat) (tools : List Tool) : ToolReplies :=
  ((ask runner before tools).run []).1

theorem repliesOf_eq : repliesOf runner before tools =
    tools.mapIdx fun i tool => (tool, runner (before + i) tool.invocation) := by
  rw [repliesOf, ask_run]
  simp only [List.length_nil, Nat.zero_add]
  rfl

theorem outcomes_survey :
    (survey runner before tools).outcomes =
      (repliesOf runner before tools).map ToolReplies.told := by
  let replies := repliesOf runner before tools
  calc
    _ = (replies.gather replies.arrivals).filterMap id := rfl
    _ = (replies.map (some ∘ ToolReplies.told)).filterMap id := by
      rw [ToolReplies.gather_of_perm ToolReplies.arrivals_perm]
    _ = replies.map ToolReplies.told := by
      rw [List.filterMap_map, Function.id_comp, List.filterMap_eq_map]

theorem getElem?_outcomes (i : Nat) :
    (survey runner before tools).outcomes[i]? = tools[i]?.map fun tool =>
      (tool, Outcome.ofResult tool (runner (before + i) tool.invocation).result) := by
  rw [outcomes_survey, repliesOf_eq, List.getElem?_map, List.getElem?_mapIdx, Option.map_map]
  rfl

theorem mem_outcomes {entry : Tool × Outcome} :
    entry ∈ (survey runner before tools).outcomes ↔ ∃ i tool, tools[i]? = some tool ∧
      (tool, Outcome.ofResult tool (runner (before + i) tool.invocation).result) = entry := by
  simp only [List.mem_iff_getElem?, getElem?_outcomes, Option.map_eq_some_iff]

theorem map_fst_outcomes : (survey runner before tools).outcomes.map Prod.fst = tools := by
  refine List.ext_getElem? fun i => ?_
  rw [List.getElem?_map, getElem?_outcomes, Option.map_map]
  exact Option.map_id_apply

end Outcomes

end NodeInventory
