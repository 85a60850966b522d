import NodeInventory.Proofs.Collection.Outcome
import NodeInventory.Proofs.Report.Versions

/-!
# The two views on a survey

There is one outcome for each place of the list of tools, and the map of versions holds what the
outcomes have found and nothing else.  Where a tool is asked more than once and found in several
versions, the last one counts.
-/

namespace NodeInventory

open Command

/-! ## Versions that are found -/

namespace Outcomes

/-- The version of the last entry in which a tool is found. -/
def LastFound (outcomes : Outcomes) (tool : Tool) (version : String) : Prop :=
  ∃ earlier later, outcomes = earlier ++ (tool, .found version) :: later ∧
    ∀ version, (tool, .found version) ∉ later

/-- No tool is found in two versions. -/
def Consistent (outcomes : Outcomes) : Prop :=
  ∀ tool version version', (tool, .found version) ∈ outcomes →
    (tool, .found version') ∈ outcomes → version = version'

variable {outcomes : Outcomes} {tool : Tool} {version : String}

theorem LastFound.mem (last : outcomes.LastFound tool version) :
    (tool, .found version) ∈ outcomes := by
  obtain ⟨earlier, later, rfl, -⟩ := last
  exact List.mem_append_right earlier List.mem_cons_self

theorem exists_lastFound (mem : (tool, .found version) ∈ outcomes) :
    ∃ last, outcomes.LastFound tool last := by
  induction outcomes generalizing version with
  | nil => cases mem
  | cons entry outcomes ih =>
      by_cases again : ∃ version, (tool, .found version) ∈ outcomes
      · obtain ⟨version, mem⟩ := again
        obtain ⟨last, earlier, later, rfl, none⟩ := ih mem
        exact ⟨last, entry :: earlier, later, rfl, none⟩
      · rcases List.mem_cons.1 mem with rfl | mem
        · exact ⟨version, [], outcomes, rfl, fun version mem => again ⟨version, mem⟩⟩
        · exact absurd ⟨version, mem⟩ again

theorem Consistent.lastFound_iff (consistent : outcomes.Consistent) :
    outcomes.LastFound tool version ↔ (tool, .found version) ∈ outcomes := by
  constructor
  · exact LastFound.mem
  · intro mem
    obtain ⟨last, found⟩ := exists_lastFound mem
    rw [consistent tool version last mem found.mem]
    exact found

/-- What an entry adds to the versions. -/
theorem entry_eq_some_iff {entry : Tool × Outcome} {key : String} :
    (entry.2.version?.map (entry.1.name, ·)) = some (key, version) ↔
      ∃ tool, tool.name = key ∧ entry = (tool, .found version) := by
  obtain ⟨tool, outcome⟩ := entry
  simp only [Option.map_eq_some_iff, Outcome.version?_eq_some_iff]
  constructor
  · rintro ⟨version, rfl, eq⟩
    cases eq
    exact ⟨tool, rfl, rfl⟩
  · rintro ⟨tool, rfl, eq⟩
    cases eq
    exact ⟨version, rfl, rfl⟩

theorem get?_versions_iff {key : String} :
    outcomes.versions.get? key = some version ↔
      ∃ tool, tool.name = key ∧ outcomes.LastFound tool version := by
  rw [versions, Versions.get?_ofList_eq_some_iff]
  constructor
  · rintro ⟨before, behind, eq, others⟩
    obtain ⟨earlier, rest, rfl, -, eq⟩ := List.filterMap_eq_append_iff.1 eq
    obtain ⟨silent, entry, later, rfl, -, found, rfl⟩ := List.filterMap_eq_cons_iff.1 eq
    obtain ⟨tool, rfl, rfl⟩ := entry_eq_some_iff.1 found
    refine ⟨tool, rfl, earlier ++ silent, later, by simp, fun version mem => ?_⟩
    exact others _ (List.mem_filterMap.2 ⟨_, mem, rfl⟩) rfl
  · rintro ⟨tool, rfl, earlier, later, rfl, none⟩
    refine ⟨_, _, List.filterMap_append, ?_⟩
    rintro ⟨key, other⟩ mem rfl
    obtain ⟨entry, mem, found⟩ := List.mem_filterMap.1 mem
    obtain ⟨tool', same, rfl⟩ := entry_eq_some_iff.1 found
    rw [Tool.name_injective same] at mem
    exact none other mem

theorem outcome?_isSome_iff : (outcomes.outcome? tool).isSome ↔ tool ∈ outcomes.map Prod.fst := by
  rw [outcome?, List.lookup_isSome_iff, List.mem_map]
  constructor
  · rintro ⟨entry, mem, same⟩
    exact ⟨entry, mem, (eq_of_beq same).symm⟩
  · rintro ⟨entry, mem, rfl⟩
    exact ⟨entry, mem, beq_self_eq_true _⟩

end Outcomes

/-! ## Both views -/

section Coherence

variable (runner : Runner) (before : Nat) (tools : List Tool)

/-- A tool that is asked at several places is answered alike at each, whatever time it takes. -/
def AnsweredAlike : Prop :=
  ∀ (i j : Nat) (tool : Tool), tools[i]? = some tool → tools[j]? = some tool →
    (runner (before + i) tool.invocation).result = (runner (before + j) tool.invocation).result

theorem consistent_of_answeredAlike (alike : AnsweredAlike runner before tools) :
    (survey runner before tools).outcomes.Consistent := by
  intro tool version version' mem mem'
  obtain ⟨i, asked, at_i, told_i⟩ := mem_outcomes.1 mem
  obtain ⟨j, asked', at_j, told_j⟩ := mem_outcomes.1 mem'
  obtain ⟨rfl, found⟩ := Prod.mk.inj told_i
  obtain ⟨rfl, found'⟩ := Prod.mk.inj told_j
  rw [alike i j _ at_i at_j, found'] at found
  exact (Outcome.found.inj found).symm

theorem get?_versions_of_alike (alike : AnsweredAlike runner before tools) {key version : String} :
    (survey runner before tools).outcomes.versions.get? key = some version ↔
      ∃ tool, tool.name = key ∧
        (tool, .found version) ∈ (survey runner before tools).outcomes := by
  have consistent := consistent_of_answeredAlike runner before tools alike
  simp only [Outcomes.get?_versions_iff, consistent.lastFound_iff]

/-- A survey in which every place of the list is asked once and has its outcome, and in which the
versions are those of the outcomes. -/
structure Coherent (survey : Survey) : Prop where
  calls : survey.calls = tools.map Tool.invocation
  places : survey.outcomes.map Prod.fst = tools
  /-- In whatever order the replies arrive. -/
  gathered : ∀ order : List Nat, order.Perm (List.range tools.length) →
    (repliesOf runner before tools).gather order = survey.outcomes.map some
  /-- Of several versions of one tool the last counts. -/
  versions_last : ∀ key version, survey.outcomes.versions.get? key = some version ↔
    ∃ tool, tool.name = key ∧ survey.outcomes.LastFound tool version
  /-- So each entry counts where a tool that is asked more than once is answered alike. -/
  versions_iff : AnsweredAlike runner before tools → ∀ key version,
    survey.outcomes.versions.get? key = some version ↔
      ∃ tool, tool.name = key ∧ (tool, .found version) ∈ survey.outcomes
  outcome?_isSome_iff : ∀ tool, (survey.outcomes.outcome? tool).isSome ↔ tool ∈ tools
  selected : ∀ key version, survey.outcomes.versions.get? key = some version →
    ∃ tool ∈ tools, tool.name = key
  none_of_not_found : ∀ tool : Tool, (∀ version, (tool, .found version) ∉ survey.outcomes) →
    survey.outcomes.versions.get? tool.name = none

/-- The versions and the outcomes of a survey are two views on one round of replies. -/
theorem survey_coherent : Coherent runner before tools (survey runner before tools) := by
  constructor
  case calls => exact calls_survey tools
  case places => exact map_fst_outcomes
  case gathered =>
    intro order all
    rw [outcomes_survey, List.map_map]
    refine ToolReplies.gather_of_perm ?_
    rwa [repliesOf_eq, List.length_mapIdx]
  case versions_last => exact fun key version => Outcomes.get?_versions_iff
  case versions_iff => exact fun alike key version => get?_versions_of_alike _ _ _ alike
  case outcome?_isSome_iff =>
    intro tool
    rw [Outcomes.outcome?_isSome_iff, map_fst_outcomes]
  case selected =>
    intro key version known
    obtain ⟨tool, rfl, last⟩ := Outcomes.get?_versions_iff.1 known
    have asked : tool ∈ (survey runner before tools).outcomes.map Prod.fst :=
      List.mem_map.2 ⟨_, last.mem, rfl⟩
    rw [map_fst_outcomes] at asked
    exact ⟨tool, asked, rfl⟩
  case none_of_not_found =>
    intro tool never
    refine Option.eq_none_iff_forall_ne_some.2 fun version known => ?_
    obtain ⟨other, same, last⟩ := Outcomes.get?_versions_iff.1 known
    cases Tool.name_injective same
    exact never version last.mem

end Coherence

/-- The kernel is asked twice and found in two versions: the first one has no key, so not every
entry counts. -/
theorem survey_of_two_kernels :
    let runner : Runner := fun n _ =>
      ⟨.ok ⟨.success, some 0, if n = 0 then "4.19.0\n" else "5.4.0\n", ""⟩, 0⟩
    let survey := survey runner 0 [.kernel, .kernel]
    survey.outcomes = [(.kernel, .found "4.19.0"), (.kernel, .found "5.4.0")] ∧
      survey.outcomes.versions.get? "kernel" = some "5.4.0" ∧
      ¬∀ key version, survey.outcomes.versions.get? key = some version ↔
        ∃ tool : Tool, tool.name = key ∧ (tool, .found version) ∈ survey.outcomes := by
  intro runner survey
  have outcomes : survey.outcomes = [(.kernel, .found "4.19.0"), (.kernel, .found "5.4.0")] := by
    decide +kernel
  have last : survey.outcomes.versions.get? "kernel" = some "5.4.0" := by
    decide +kernel
  refine ⟨outcomes, last, fun counts => ?_⟩
  have first : (Tool.kernel, Outcome.found "4.19.0") ∈ survey.outcomes := by
    rw [outcomes]
    exact List.mem_cons_self
  have known := (counts "kernel" "4.19.0").2 ⟨.kernel, by decide +kernel, first⟩
  rw [last] at known
  revert known
  decide

end NodeInventory
