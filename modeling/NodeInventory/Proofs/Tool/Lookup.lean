import Mathlib.Data.List.Forall2
import Mathlib.Data.List.Nodup
import NodeInventory.Proofs.Text.Case
import NodeInventory.Tool

/-!
# Looking up tools

A tool is found under its own name and under its other ones, in any letter case and with any blanks
around them, and under nothing else.  What is found is the one entry that the registry has for the
tool.
-/

namespace NodeInventory.Tool

open Banner Text

/-! ## Spellings of a name -/

/-- A name with blanks around it, in which capitals may stand for their small letters. -/
def SpellsName (id name : String) : Prop :=
  ∃ before letters behind, id.toList = before ++ (letters ++ behind) ∧
    IsBlankText before ∧ IsBlankText behind ∧
    List.Forall₂ (fun c d => c = d ∨ IsCapitalOf c d) letters name.toList

/-- A name that holds neither blanks nor capitals. -/
def IsPlainName (name : String) : Prop :=
  ∀ d ∈ name.toList, isBlank d = false ∧ d.isUpper = false

theorem lower_of_alike {letters word : List Char} (small : ∀ d ∈ word, d.isUpper = false)
    (alike : List.Forall₂ (fun c d => c = d ∨ IsCapitalOf c d) letters word) :
    lower letters = word := by
  induction alike with
  | nil => rfl
  | @cons c d letters word here _ ih =>
      obtain ⟨small_d, small⟩ := List.forall_mem_cons.1 small
      have lowered : c.toLower = d := by
        rcases here with rfl | letters
        · exact toLower_eq_self small_d
        · exact (isCapitalOf_iff.1 letters).2
      rw [lower, List.map_cons, lowered, ← lower, ih small]

theorem canonical_eq_iff {id name : String} (plain : IsPlainName name) :
    canonical id = name ↔ SpellsName id name := by
  constructor
  · rintro rfl
    obtain ⟨before, behind, blank, blank', eq⟩ := exists_strip isBlank id.toList
    refine ⟨before, trim id.toList, behind, eq, blank, blank', ?_⟩
    rw [canonical, String.toList_ofList, lower, List.forall₂_map_right_iff, List.forall₂_same]
    exact fun c _ => eq_toLower_or_isCapitalOf c
  · rintro ⟨before, letters, behind, eq, blank, blank', alike⟩
    have lowered : lower letters = name.toList :=
      lower_of_alike (fun d mem => (plain d mem).2) alike
    have solid : ∀ c ∈ letters, isBlank c = false := by
      intro c mem
      rw [← isBlank_toLower]
      exact (plain _ (lowered ▸ List.mem_map_of_mem mem)).1
    have trimmed : trim letters = letters := strip_eq_self_of_refused solid
    rw [canonical, eq, trim_pad blank blank', trimmed, lowered, String.ofList_toList]

/-! ## Names -/

/-- The names of the tools, two of which have another one besides their own. -/
inductive HasName : Tool → String → Prop
  | own (tool : Tool) : HasName tool tool.name
  | kubernetes : HasName .hyperkube "kubernetes"
  | ip : HasName .iproute2 "ip"

/-- The names of a tool, its own first. -/
def names (tool : Tool) : List String := tool.name :: tool.aliases

variable {tool tool' : Tool} {name id : String}

theorem mem_names_iff : name ∈ tool.names ↔ HasName tool name := by
  constructor
  · intro mem
    rcases List.mem_cons.1 mem with rfl | other
    · exact .own tool
    · cases tool with
      | hyperkube =>
          cases List.mem_singleton.1 other
          exact .kubernetes
      | iproute2 =>
          cases List.mem_singleton.1 other
          exact .ip
      | _ => cases other
  · rintro (_ | _ | _)
    · exact List.mem_cons_self
    · exact List.mem_cons_of_mem _ List.mem_cons_self
    · exact List.mem_cons_of_mem _ List.mem_cons_self

theorem goesBy_iff : goesBy name tool = true ↔ HasName tool name := by
  rw [goesBy, Bool.or_eq_true, beq_iff_eq, List.contains_iff_mem, ← mem_names_iff, names,
    List.mem_cons, eq_comm]

/-- There are twelve names: those of the ten tools, and two more. -/
theorem exists_hasName_iff :
    (∃ tool, HasName tool name) ↔ name ∈ all.map Tool.name ++ ["kubernetes", "ip"] := by
  rw [List.mem_append, List.mem_map]
  constructor
  · rintro ⟨tool, _ | _ | _⟩
    · exact .inl ⟨tool, mem_all tool, rfl⟩
    · exact .inr List.mem_cons_self
    · exact .inr (List.mem_cons_of_mem _ List.mem_cons_self)
  · rintro (⟨tool, -, rfl⟩ | other)
    · exact ⟨tool, .own tool⟩
    · rcases List.mem_cons.1 other with rfl | other
      · exact ⟨_, .kubernetes⟩
      · cases List.mem_singleton.1 other
        exact ⟨_, .ip⟩

/-- No name is that of two tools. -/
theorem HasName.unique (named : HasName tool name) (named' : HasName tool' name) :
    tool = tool' := by
  have apart : ∀ tool ∈ all, ∀ tool' ∈ all, ∀ name ∈ tool.names, name ∈ tool'.names →
      tool = tool' := by
    decide +kernel
  exact apart tool (mem_all tool) tool' (mem_all tool') name (mem_names_iff.2 named)
    (mem_names_iff.2 named')

theorem HasName.isPlainName (named : HasName tool name) : IsPlainName name := by
  have plain : ∀ tool ∈ all, ∀ name ∈ tool.names,
      (name.toList.all fun d => !isBlank d && !d.isUpper) = true := by
    decide +kernel
  intro d mem
  have both := List.all_eq_true.1 (plain tool (mem_all tool) name (mem_names_iff.2 named)) d mem
  simpa using both

theorem find?_goesBy_eq_some_iff : all.find? (goesBy name) = some tool ↔ HasName tool name := by
  constructor
  · intro found
    exact goesBy_iff.1 (List.find?_some found)
  · intro named
    cases found : all.find? (goesBy name) with
    | none => exact absurd (goesBy_iff.2 named) (List.find?_eq_none.1 found tool (mem_all tool))
    | some tool' => rw [named.unique (goesBy_iff.1 (List.find?_some found))]

/-! ## Identifiers -/

/-- An identifier asks for a tool where it spells one of its names. -/
def AsksFor (id : String) (tool : Tool) : Prop := ∃ name, HasName tool name ∧ SpellsName id name

theorem asksFor_iff : AsksFor id tool ↔ HasName tool (canonical id) := by
  constructor
  · rintro ⟨name, named, spelled⟩
    rwa [(canonical_eq_iff named.isPlainName).2 spelled]
  · intro named
    exact ⟨_, named, (canonical_eq_iff named.isPlainName).1 rfl⟩

theorem ofId?_eq_ok_iff : ofId? id = .ok tool ↔ AsksFor id tool := by
  rw [asksFor_iff, ← find?_goesBy_eq_some_iff, ofId?]
  split
  next found => rw [found, Except.ok.injEq, Option.some.injEq]
  next missing => simp [missing]

theorem ofId?_eq_error_iff {error : InventoryError} :
    ofId? id = .error error ↔ (∀ tool, ¬AsksFor id tool) ∧ error = .notRegistered id := by
  constructor
  · intro failed
    refine ⟨fun tool asks => ?_, ?_⟩
    · cases failed.symm.trans (ofId?_eq_ok_iff.2 asks)
    · rw [ofId?] at failed
      split at failed <;> cases failed
      rfl
  · rintro ⟨unknown, rfl⟩
    rw [ofId?]
    split
    next tool found =>
      exact absurd (asksFor_iff.2 (find?_goesBy_eq_some_iff.1 found)) (unknown tool)
    next => rfl

/-! ## Entries -/

/-- The one entry that a tool has in the registry. -/
structure IsEntryOf (entry : Entry) (tool : Tool) : Prop where
  listed : entry ∈ registry
  tool_eq : entry.tool = tool
  only : ∀ other ∈ registry, other.tool = tool → other = entry

theorem isEntryOf_entry (tool : Tool) : IsEntryOf tool.entry tool where
  listed := List.get_mem ..
  tool_eq := by cases tool <;> rfl
  only := by
    have in_order : registry.map Entry.tool = all := rfl
    have apart : (registry.map Entry.tool).Nodup := in_order ▸ nodup_all
    intro other listed eq
    refine List.inj_on_of_nodup_map apart listed (List.get_mem ..) (eq.trans ?_)
    cases tool <;> rfl

theorem IsEntryOf.eq_entry {entry : Entry} (registered : IsEntryOf entry tool) :
    entry = tool.entry :=
  (isEntryOf_entry tool).only entry registered.listed registered.tool_eq

/-- What looking up the rule of an identifier comes to. -/
inductive Finds (id : String) : Except InventoryError Rule → Prop
  | rule {tool : Tool} {entry : Entry} (asks : AsksFor id tool)
      (registered : IsEntryOf entry tool) : Finds id (.ok entry.rule)
  | unknown (unknown : ∀ tool, ¬AsksFor id tool) : Finds id (.error (.notRegistered id))

theorem map_rule_ofId?_eq_iff {found : Except InventoryError Rule} :
    (ofId? id).map rule = found ↔ Finds id found := by
  constructor
  · rintro rfl
    cases looked : ofId? id with
    | ok tool => exact .rule (ofId?_eq_ok_iff.1 looked) (isEntryOf_entry tool)
    | error error =>
        obtain ⟨unknown, rfl⟩ := ofId?_eq_error_iff.1 looked
        exact .unknown unknown
  · rintro (⟨asks, registered⟩ | unknown)
    · rw [ofId?_eq_ok_iff.2 asks, registered.eq_entry]
      rfl
    · rw [ofId?_eq_error_iff.2 ⟨unknown, rfl⟩]
      rfl

/-- A look-up succeeds for the spellings of the ten names and of the two further ones.  It gives the
rule of the one entry of the tool, which stands at the tool's own place in the registry and carries
its own name; under this name, however spelled, the same rule is found again.  For all else the
error repeats what was asked for. -/
theorem ofId?_finds (id : String) :
    ((∃ found, (ofId? id).map rule = .ok found) ↔
      ∃ word ∈ all.map Tool.name ++ ["kubernetes", "ip"], SpellsName id word) ∧
    (∀ found, (ofId? id).map rule = found ↔ Finds id found) ∧
    (∀ found again, (ofId? id).map rule = .ok found → SpellsName again found.tool →
      (ofId? again).map rule = .ok found) ∧
    ∀ tool : Tool, IsEntryOf tool.entry tool ∧ registry[tool.position]? = some tool.entry ∧
      all[tool.position]? = some tool ∧ tool.rule = tool.entry.rule ∧
      tool.invocation = tool.entry.invocation ∧ tool.rule.tool = tool.name := by
  have named (tool : Tool) : tool.rule.tool = tool.name :=
    congrArg Tool.name (isEntryOf_entry tool).tool_eq
  refine ⟨?_, fun found => map_rule_ofId?_eq_iff, ?_, fun tool => ⟨isEntryOf_entry tool, ?_⟩⟩
  · simp only [← exists_hasName_iff]
    constructor
    · rintro ⟨found, looked⟩
      cases map_rule_ofId?_eq_iff.1 looked with
      | @rule tool _ asks _ =>
          obtain ⟨word, named, spelled⟩ := asks
          exact ⟨word, ⟨tool, named⟩, spelled⟩
    · rintro ⟨word, ⟨tool, named⟩, spelled⟩
      exact ⟨_, map_rule_ofId?_eq_iff.2 (.rule ⟨word, named, spelled⟩ (isEntryOf_entry tool))⟩
  · intro found again looked spelled
    cases map_rule_ofId?_eq_iff.1 looked with
    | @rule tool entry asks registered =>
        rw [registered.eq_entry] at spelled ⊢
        have again_asks : AsksFor again tool := ⟨_, .own tool, named tool ▸ spelled⟩
        exact map_rule_ofId?_eq_iff.2 (.rule again_asks (isEntryOf_entry tool))
  · exact ⟨by cases tool <;> rfl, by cases tool <;> rfl, rfl, rfl, named tool⟩

/-- An alias leads to the same rule as the name that the rule carries, however it is spelled. -/
theorem ofId?_finds_alias :
    (ofId? "\u2003KuberNetes\n").map rule = .ok hyperkube.rule ∧
      SpellsName "\tHyperKUBE " hyperkube.rule.tool ∧
      (ofId? "\tHyperKUBE ").map rule = .ok hyperkube.rule := by
  have looked : (ofId? "\u2003KuberNetes\n").map rule = .ok hyperkube.rule := rfl
  have spelled : SpellsName "\tHyperKUBE " hyperkube.rule.tool :=
    (canonical_eq_iff (HasName.own hyperkube).isPlainName).1 rfl
  exact ⟨looked, spelled, (ofId?_finds "\u2003KuberNetes\n").2.2.1 _ _ looked spelled⟩

end NodeInventory.Tool
