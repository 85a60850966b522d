import NodeInventory.Proofs.Banner.Token

/-!
# The phrase of a line and the marker of its version

Some tools select a line by a phrase and look for the version behind a marker that only ends this
phrase.  The two searches are apart, and each one takes the leftmost place it finds: so the version
is the one behind the phrase where the marker does not stand in front of the phrase already, and
else the one behind that other place.
-/

namespace NodeInventory.Text

/-! ## Leftmost places -/

/-- The leftmost place of a marker in a text, between what stands before it and behind it. -/
structure IsLeftmost (marker s lead rest : List Char) : Prop where
  eq : s = lead ++ (marker ++ rest)
  first : ∀ n < lead.length, ¬marker <+: s.drop n

variable {marker phrase s lead rest : List Char}

theorem exists_isLeftmost_iff :
    after? marker s = some rest ↔ ∃ lead, IsLeftmost marker s lead rest := by
  rw [after?_eq_some_iff]
  exact exists_congr fun lead =>
    ⟨fun both => ⟨both.1, both.2⟩, fun found => ⟨found.eq, found.first⟩⟩

theorem exists_isLeftmost_of_contains (found : contains marker s = true) :
    ∃ lead rest, IsLeftmost marker s lead rest := by
  obtain ⟨rest, eq⟩ := Option.isSome_iff_exists.1 found
  obtain ⟨lead, found⟩ := exists_isLeftmost_iff.1 eq
  exact ⟨lead, rest, found⟩

/-- A marker does not stand whole in front of its leftmost place. -/
theorem IsLeftmost.not_isInfix (found : IsLeftmost marker s lead rest) (ne : marker ≠ []) :
    ¬marker <:+: lead := by
  rintro ⟨before, behind, rfl⟩
  have pos : 0 < marker.length := List.length_pos_iff.2 ne
  refine found.first before.length (by simp only [List.length_append]; omega) ?_
  rw [found.eq, List.append_assoc, List.append_assoc, List.drop_left]
  exact List.prefix_append ..

/-- A marker that stands in a part of a text has its leftmost place there. -/
theorem IsLeftmost.append_isPrefix {part behind before rest' : List Char}
    (within : marker <:+: part) (eq : s = part ++ behind)
    (found : IsLeftmost marker s before rest') :
    before ++ marker <+: part := by
  obtain ⟨early, late, rfl⟩ := within
  have le : before.length ≤ early.length := by
    by_contra lt
    refine found.first early.length (Nat.lt_of_not_le lt) ?_
    rw [eq, List.append_assoc, List.append_assoc, List.drop_left]
    exact List.prefix_append ..
  have marked : before ++ marker <+: s := by
    rw [found.eq, ← List.append_assoc]
    exact List.prefix_append ..
  have start : early ++ marker ++ late <+: s := by
    rw [eq]
    exact List.prefix_append ..
  refine List.prefix_of_prefix_length_le marked start ?_
  simp only [List.length_append]
  omega

/-- The marker ends the phrase, and stands at no other place in it, nor across its start. -/
structure Closes (marker phrase : List Char) : Prop where
  ends : marker <:+ phrase
  once : ∀ n < phrase.length - marker.length, ¬marker <+: phrase.drop n
  apart : ∀ n < marker.length, 0 < n → ¬marker.drop n <+: phrase

/-- The marker at the end of a phrase is the leftmost one, if none stands before the phrase. -/
theorem Closes.after?_eq (closes : Closes marker phrase) (eq : s = lead ++ (phrase ++ rest))
    (clear : ¬marker <:+: lead) : after? marker s = some rest := by
  obtain ⟨opening, rfl⟩ := closes.ends
  have whole : s = (lead ++ opening) ++ (marker ++ rest) := by
    rw [eq]
    simp only [List.append_assoc]
  have length_phrase : (opening ++ marker).length = opening.length + marker.length :=
    List.length_append
  refine after?_eq_some_iff.2 ⟨_, whole, fun n lt found => ?_⟩
  rw [List.length_append] at lt
  rw [eq] at found
  by_cases inside : lead.length ≤ n
  · -- an earlier place within the phrase
    obtain ⟨i, rfl⟩ := Nat.exists_eq_add_of_le inside
    rw [← List.drop_drop, List.drop_left, List.drop_append_of_le_length (by omega)] at found
    refine closes.once i (by omega) ?_
    refine List.prefix_of_prefix_length_le found (List.prefix_append ..) ?_
    rw [List.length_drop]
    omega
  · rw [List.drop_append_of_le_length (by omega)] at found
    by_cases short : marker.length ≤ (lead.drop n).length
    · -- a place before the phrase
      have within : marker <+: lead.drop n :=
        List.prefix_of_prefix_length_le found (List.prefix_append ..) short
      exact clear (within.isInfix.trans (List.drop_suffix n lead).isInfix)
    · -- a place across the start of the phrase
      obtain ⟨late, split⟩ : lead.drop n <+: marker :=
        List.prefix_of_prefix_length_le (List.prefix_append ..) found (by omega)
      have later : late <+: (opening ++ marker) ++ rest := by
        rwa [← List.prefix_append_right_inj (lead.drop n), split]
      have lengths := congrArg List.length split
      rw [List.length_append] at lengths
      have tail : marker.drop (lead.drop n).length = late := by
        conv_lhs => rw [← split]
        exact List.drop_left
      refine closes.apart (lead.drop n).length (by omega) (by rw [List.length_drop]; omega) ?_
      rw [tail]
      exact List.prefix_of_prefix_length_le later (List.prefix_append ..) (by omega)

end NodeInventory.Text

namespace NodeInventory.Banner

open Text

/-! ## Versions behind a phrase -/

/-- The first word of a text, less its punctuation. -/
def IsFirstToken (text version : List Char) : Prop :=
  ∃ word, (words text).head? = some word ∧ strip isTrimmed word = version

/-- The version stands behind the leftmost place of the phrase. -/
def StandsBehind (phrase line version : List Char) : Prop :=
  ∃ lead rest, IsLeftmost phrase line lead rest ∧ IsFirstToken rest version

theorem standsBehind_iff {phrase line version : List Char} :
    StandsBehind phrase line version ↔
      ((after? phrase line).bind fun rest => (words rest).head?).map (strip isTrimmed) =
        some version := by
  simp only [Option.map_eq_some_iff, Option.bind_eq_some_iff, exists_isLeftmost_iff]
  constructor
  · rintro ⟨lead, rest, found, word, first, kept⟩
    exact ⟨word, ⟨rest, ⟨lead, found⟩, first⟩, kept⟩
  · rintro ⟨word, ⟨rest, ⟨lead, found⟩, first⟩, kept⟩
    exact ⟨lead, rest, found, word, first, kept⟩

theorem standsBehind_of_capture {marker : String} {line version : List Char}
    (captured : (TokenSelector.after marker).capture line = some version) :
    StandsBehind marker.toList line version := by
  obtain ⟨word, pointed, kept⟩ := Option.bind_eq_some_iff.1 captured
  obtain ⟨stripped, -⟩ := tokenOfWord_eq_some_iff.1 kept
  rw [standsBehind_iff, ← stripped]
  exact congrArg (Option.map (strip isTrimmed)) pointed

end NodeInventory.Banner

namespace NodeInventory.Tool

open Banner Text

/-- The marker of a tool stands only once in the phrase of its line, if it ends the phrase. -/
theorem closes_phrase (tool : Tool) {phrase marker : String}
    (selects : tool.rule.line = .contains phrase) (marks : tool.rule.token = .after marker)
    (ends : marker.toList <:+ phrase.toList) : Closes marker.toList phrase.toList := by
  refine ⟨ends, ?_, ?_⟩ <;> revert ends <;> cases tool <;> cases selects <;> cases marks <;> decide

/-- Where the version of a text stands, seen from the phrase that selects its line. -/
structure ReadsNear (tool : Tool) (phrase marker raw version : String)
    (line lead rest : List Char) : Prop where
  picks : tool.rule.Picks raw.toList line
  found : IsLeftmost phrase.toList (trim line) lead rest
  /-- It is the version behind the phrase if the marker does not stand before the phrase. -/
  behind : ¬marker.toList <:+: lead → IsFirstToken rest version.toList
  /-- If it does, it is the version behind the leftmost of those places. -/
  before : marker.toList <:+: lead → ∃ lead' rest',
    IsLeftmost marker.toList (trim line) lead' rest' ∧
    lead' ++ marker.toList <+: lead ∧ IsFirstToken rest' version.toList
  /-- A whole phrase as the marker does not stand before the phrase. -/
  whole : marker = phrase → ¬marker.toList <:+: lead

/-- A version is read behind the phrase that selects the line, unless the marker stands in that line
before the phrase; then it is read there. -/
theorem extract_readsNear (tool : Tool) {phrase marker raw version : String}
    (selects : tool.rule.line = .contains phrase) (marks : tool.rule.token = .after marker)
    (ends : marker.toList <:+ phrase.toList)
    (read : tool.rule.extract raw = .ok (some version)) :
    ∃ line lead rest, ReadsNear tool phrase marker raw version line lead rest := by
  obtain ⟨-, line, picks, captured⟩ := Rule.extract_eq_some_iff.1 read
  have accepted : contains phrase.toList (trim line) = true := by
    have accepted := picks.accepted
    rwa [selects] at accepted
  obtain ⟨lead, rest, found⟩ := exists_isLeftmost_of_contains accepted
  rw [marks] at captured
  obtain ⟨lead', rest', found', token⟩ := standsBehind_of_capture captured
  have closes : Closes marker.toList phrase.toList := tool.closes_phrase selects marks ends
  refine ⟨line, lead, rest, ?_⟩
  constructor
  case picks => exact picks
  case found => exact found
  case behind =>
    intro clear
    have same : some rest' = some rest :=
      (exists_isLeftmost_iff.2 ⟨lead', found'⟩).symm.trans (closes.after?_eq found.eq clear)
    exact Option.some.inj same ▸ token
  case before =>
    intro early
    exact ⟨lead', rest', found', found'.append_isPrefix early found.eq, token⟩
  case whole =>
    rintro rfl
    obtain ⟨c, head, -⟩ := tool.head_marker marks
    refine found.not_isInfix fun empty => ?_
    rw [empty] at head
    cases head

/-- Behind a prefix of a log, the version of the line is read. -/
theorem extract_readsNear_in_log :
    fleetd.rule.line = .contains "fleetd version" ∧ fleetd.rule.token = .after "version" ∧
      "version".toList <:+ "fleetd version".toList ∧
      fleetd.rule.extract "[7.1] fleetd[9]: fleetd version v1.0.0, built" = .ok (some "v1.0.0") ∧
      ∃ line lead rest, ReadsNear fleetd "fleetd version" "version"
        "[7.1] fleetd[9]: fleetd version v1.0.0, built" "v1.0.0" line lead rest := by
  have ends : "version".toList <:+ "fleetd version".toList := by decide
  have read : fleetd.rule.extract "[7.1] fleetd[9]: fleetd version v1.0.0, built" =
      .ok (some "v1.0.0") := by decide
  exact ⟨rfl, rfl, ends, read, fleetd.extract_readsNear rfl rfl ends read⟩

/-- A marker before the phrase hides the version behind the phrase. -/
theorem extract_before_phrase :
    etcd.rule.line = .contains "etcd Version:" ∧ etcd.rule.token = .after "Version:" ∧
      "Version:".toList <:+ "etcd Version:".toList ∧
      etcd.rule.extract "Go Version: go1.8.3, etcd Version: 3.2.5" = .ok (some "go1.8.3") ∧
      ∀ line, etcd.rule.Picks "Go Version: go1.8.3, etcd Version: 3.2.5".toList line →
        StandsBehind "etcd Version:".toList (trim line) "3.2.5".toList ∧
        ¬StandsBehind "etcd Version:".toList (trim line) "go1.8.3".toList := by
  refine ⟨rfl, rfl, by decide, by decide, fun line picks => ?_⟩
  have picked : etcd.rule.line? "Go Version: go1.8.3, etcd Version: 3.2.5".toList =
      some "Go Version: go1.8.3, etcd Version: 3.2.5".toList := by decide
  rw [← Option.some.inj (picked.symm.trans picks.line?_eq), standsBehind_iff, standsBehind_iff]
  decide

end NodeInventory.Tool
