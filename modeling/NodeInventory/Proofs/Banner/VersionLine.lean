import NodeInventory.Proofs.Text.Cutting
import NodeInventory.Tool

/-!
# Reading a version line

A banner is read up to the first line that the line selector accepts.  Where that line tells a
version, behind the marker of the rule or as its first word, exactly this version is read, whatever
stands around it and in the other lines.
-/

namespace NodeInventory.Banner

open Text

/-! ## The parts of a banner -/

/-- A version as it stands in a line: one word of at most 64 bytes, and at least one, without
punctuation at its ends. -/
structure IsVersion (token : List Char) : Prop where
  length_le : byteLength token ≤ 64
  solid : ∀ c ∈ token, isBlank c = false
  bare : Bare isTrimmed token

/-- What stands before the version that a selector points at: nothing before the first word of the
line, and otherwise some text, the marker at its leftmost place, and blanks. -/
inductive LeadsTo : TokenSelector → (line lead : List Char) → Prop
  | field {line} : LeadsTo (.field 0) line []
  | after {marker line text gap}
      (leftmost : ∀ n < text.length, ¬marker.toList <+: line.drop n) (blanks : IsBlankText gap) :
      LeadsTo (.after marker) line (text ++ (marker.toList ++ gap))

/-- What stands behind a version: some punctuation or none, and then a blank or the end. -/
def Trails (tail : List Char) : Prop :=
  ∃ marks rest, tail = marks ++ rest ∧ (∀ c ∈ marks, isTrimmed c = true) ∧
    ∀ c, rest.head? = some c → isBlank c = true

/-- A line that tells a version in the way a rule asks for. -/
structure VersionLine (rule : Rule) (line token : List Char) : Prop where
  unbroken : ∀ c ∈ line, isLineBreak c = false
  accepted : rule.line.accepts (trim line) = true
  parts : ∃ lead tail, line = lead ++ (token ++ tail) ∧ LeadsTo rule.token line lead ∧ Trails tail

/-- Lines that a rule passes over: blank ones, and those that its line selector does not accept. -/
inductive Unread (rule : Rule) : List Char → Prop
  | nil : Unread rule []
  | line {line cut rest} (unbroken : ∀ c ∈ line, isLineBreak c = false)
      (ends : isLineBreak cut = true)
      (passed : IsBlankText line ∨ rule.line.accepts (trim line) = false)
      (later : Unread rule rest) : Unread rule (line ++ cut :: rest)

/-! ## The word of a version -/

theorem isBlank_eq_false_of_isTrimmed {c : Char} (trimmed : isTrimmed c = true) :
    isBlank c = false := by
  simp only [isTrimmed, List.mem_cons, List.not_mem_nil, or_false, decide_eq_true_eq] at trimmed
  rcases trimmed with rfl | rfl | rfl | rfl | rfl | rfl | rfl | rfl <;> decide

theorem IsVersion.ne_nil {token : List Char} (version : IsVersion token) : token ≠ [] := by
  rintro rfl
  obtain ⟨a, head, -⟩ := version.bare.first
  cases head

/-- The punctuation behind a version is no part of it. -/
theorem tokenOfWord_append {token marks : List Char} (version : IsVersion token)
    (trimmed : ∀ c ∈ marks, isTrimmed c = true) : tokenOfWord (token ++ marks) = some token := by
  have stripped : strip isTrimmed (token ++ marks) = token := by
    have := strip_append version.bare [] marks
    rw [stripEnd_eq_nil trimmed, List.append_nil] at this
    exact this
  have short : ¬maxTokenBytes < byteLength token := Nat.not_lt.2 version.length_le
  rw [tokenOfWord, stripped]
  exact if_neg (not_or.2 ⟨version.ne_nil, short⟩)

/-- Blanks that are cut off in front leave a marker at its leftmost place. -/
theorem leftmost_of_append {marker s : List Char} (skipped t : List Char) {k : Nat}
    (le : k ≤ s.length)
    (leftmost : ∀ n < skipped.length + k, ¬marker <+: (skipped ++ (s ++ t)).drop n) :
    ∀ n < k, ¬marker <+: s.drop n := by
  intro n lt found
  refine leftmost (skipped.length + n) (Nat.add_lt_add_left lt _) ?_
  rw [← List.drop_drop, List.drop_left, List.drop_append_of_le_length (by omega)]
  exact found.trans (List.prefix_append ..)

/-- In the trimmed line, a selector points at the word behind what leads to it. -/
theorem word?_trim {selector : TokenSelector} {line lead word rest : List Char}
    (sharp : ∀ marker, selector = .after marker →
      ∃ c, marker.toList.head? = some c ∧ isBlank c = false)
    (leads : LeadsTo selector line lead) (eq : line = lead ++ (word ++ rest)) (ne : word ≠ [])
    (solid : ∀ c ∈ word, isBlank c = false) (stops : ∀ c, rest.head? = some c → isBlank c = true) :
    selector.word? (trim line) = some word := by
  obtain ⟨cut, rest_eq⟩ : stripEnd isBlank rest <+: rest := stripEnd_prefix rest
  have stops' : ∀ c, (stripEnd isBlank rest).head? = some c → isBlank c = true := by
    intro c head
    refine stops c ?_
    rw [← rest_eq, List.head?_append, head]
    rfl
  have trimmed : trim line =
      lead.dropWhile isBlank ++ (word ++ stripEnd isBlank rest) := by
    rw [eq, ← List.append_assoc, trim, strip_append (Bare.of_forall ne solid), List.append_assoc]
  rw [trimmed]
  cases leads with
  | field =>
      rw [TokenSelector.word?, ← List.head?_eq_getElem?]
      exact head?_words (fun c mem => by cases mem) ne solid stops'
  | @after marker _ text gap leftmost blanks =>
      obtain ⟨c, head, solid_marker⟩ := sharp marker rfl
      -- the marker starts with no blank, so that trimming cuts nothing off but the text before it
      have kept : (text ++ (marker.toList ++ gap)).dropWhile isBlank =
          text.dropWhile isBlank ++ (marker.toList ++ gap) :=
        dropWhile_append_of_stop <|
          refused_of_head? ⟨c, by rw [List.head?_append, head]; rfl, solid_marker⟩
      have whole : line = text.takeWhile isBlank ++ ((text.dropWhile isBlank ++
          (marker.toList ++ (gap ++ (word ++ stripEnd isBlank rest)))) ++ cut) := by
        calc line
          _ = (text.takeWhile isBlank ++ text.dropWhile isBlank) ++
              (marker.toList ++ (gap ++ (word ++ (stripEnd isBlank rest ++ cut)))) := by
            rw [List.takeWhile_append_dropWhile, rest_eq, eq]
            simp only [List.append_assoc]
          _ = _ := by simp only [List.append_assoc]
      have leftmost' : ∀ n < (text.dropWhile isBlank).length, ¬marker.toList <+:
          (text.dropWhile isBlank ++
            (marker.toList ++ (gap ++ (word ++ stripEnd isBlank rest)))).drop n := by
        refine leftmost_of_append (text.takeWhile isBlank) cut ?_ ?_
        · rw [List.length_append]
          exact Nat.le_add_right _ _
        · rw [← whole, ← List.length_append, List.takeWhile_append_dropWhile]
          exact leftmost
      have found := after?_append marker.toList _ (gap ++ (word ++ stripEnd isBlank rest)) leftmost'
      rw [kept, TokenSelector.word?]
      simp only [List.append_assoc]
      rw [found]
      exact head?_words blanks ne solid stops'

theorem capture_nil (selector : TokenSelector) : selector.capture [] = none := by
  have none_found : selector.word? [] = none := by
    cases selector with
    | field index => rfl
    | after marker =>
        rw [TokenSelector.word?, after?]
        split <;> rfl
  rw [TokenSelector.capture, none_found]
  rfl

namespace VersionLine

variable {rule : Rule} {line token : List Char}

/-- A version line tells its version, and so is not blank. -/
theorem capture_trim (told : VersionLine rule line token) (version : IsVersion token)
    (sharp : ∀ marker, rule.token = .after marker →
      ∃ c, marker.toList.head? = some c ∧ isBlank c = false) :
    rule.token.capture (trim line) = some token ∧ trim line ≠ [] := by
  obtain ⟨lead, _, eq, leads, marks, rest, rfl, trimmed, stops⟩ := told.parts
  have solid : ∀ c ∈ token ++ marks, isBlank c = false := by
    intro c mem
    rcases List.mem_append.1 mem with mem | mem
    · exact version.solid c mem
    · exact isBlank_eq_false_of_isTrimmed (trimmed c mem)
  have word : rule.token.word? (trim line) = some (token ++ marks) :=
    word?_trim sharp leads (by rw [eq, List.append_assoc])
      (List.append_ne_nil_of_left_ne_nil version.ne_nil marks) solid stops
  have captured : rule.token.capture (trim line) = some token := by
    rw [TokenSelector.capture, word]
    exact tokenOfWord_append version trimmed
  refine ⟨captured, fun blank => ?_⟩
  rw [blank, capture_nil] at captured
  cases captured

end VersionLine

/-! ## The line of a version -/

/-- Lines that are passed over leave the search to what follows them. -/
theorem Unread.line?_append {rule : Rule} {block : List Char} (unread : Unread rule block)
    (text : List Char) : rule.line? (block ++ text) = rule.line? text := by
  induction unread with
  | nil => rfl
  | @line line cut rest unbroken ends passed later ih =>
      have skipped : ([trim line].filter (· ≠ [])).find? rule.line.accepts = none := by
        refine List.find?_eq_none.2 fun candidate mem => ?_
        obtain ⟨mem, filled⟩ := List.mem_filter.1 mem
        rw [List.mem_singleton] at mem
        subst mem
        rcases passed with blank | refused
        · exact absurd (trim_eq_nil blank) (of_decide_eq_true filled)
        · rw [refused]
          exact Bool.false_ne_true
      rw [List.append_assoc, List.cons_append, Rule.line?, lines_append_cons unbroken ends,
        List.find?_append, skipped, Option.none_or]
      exact ih

/-- An accepted line is the one that is read. -/
theorem line?_append_of_accepts {rule : Rule} {line after : List Char}
    (unbroken : ∀ c ∈ line, isLineBreak c = false)
    (ends : ∀ c, after.head? = some c → isLineBreak c = true) (filled : trim line ≠ [])
    (accepted : rule.line.accepts (trim line) = true) :
    rule.line? (line ++ after) = some (trim line) := by
  obtain ⟨later, eq⟩ := lines_append unbroken ends
  rw [Rule.line?, eq, List.filter_cons, if_pos (decide_eq_true filled)]
  exact List.find?_cons_of_pos accepted

end NodeInventory.Banner

namespace NodeInventory.Tool

open Banner Text

/-! ## The registered tools -/

theorem validate_rule (tool : Tool) : tool.rule.validate = .ok () := by
  cases tool <;> rfl

/-- No marker of a tool starts with a blank. -/
theorem head_marker (tool : Tool) {marker : String} (after : tool.rule.token = .after marker) :
    ∃ c, marker.toList.head? = some c ∧ isBlank c = false := by
  cases tool <;> cases after <;> exact ⟨_, rfl, by decide⟩

/-- From a banner in which a version line follows lines that the rule of the tool passes over, the
version of this line is read. -/
theorem extract_versionLine (tool : Tool) {block line token after : List Char}
    (unread : Unread tool.rule block) (told : VersionLine tool.rule line token)
    (version : IsVersion token) (ends : ∀ c, after.head? = some c → isLineBreak c = true) :
    tool.rule.extract (String.ofList (block ++ (line ++ after))) =
      .ok (some (String.ofList token)) := by
  obtain ⟨captured, filled⟩ := told.capture_trim version fun _ => tool.head_marker
  have read : tool.rule.version? (block ++ (line ++ after)) = some token := by
    rw [Rule.version?, unread.line?_append,
      line?_append_of_accepts told.unbroken ends filled told.accepted]
    exact captured
  rw [Rule.extract, tool.validate_rule, String.toList_ofList, read]
  rfl

/-- The second line of a log tells the version, not the first one and not the third. -/
theorem extract_versionLine_of_log :
    let block := "[1.0] socat[7]: socat by someone\r\n".toList
    let line := "[1.1] socat[7]: socat version 1.7.3.2, on Dec  1".toList
    let token := "1.7.3.2".toList
    let after := "\n[1.2] socat[7]: running on Linux version #1".toList
    Unread socat.rule block ∧ VersionLine socat.rule line token ∧ IsVersion token ∧
      (∀ c, after.head? = some c → isLineBreak c = true) ∧
      socat.rule.extract (String.ofList (block ++ (line ++ after))) =
        .ok (some (String.ofList token)) := by
  intro block line token after
  have unread : Unread socat.rule
      ("[1.0] socat[7]: socat by someone".toList ++ '\r' :: ([] ++ '\n' :: [])) :=
    .line (refused_of_any rfl) (by decide) (.inr (by decide))
      (.line (refused_of_any rfl) (by decide) (.inl (by decide)) .nil)
  have leads : LeadsTo socat.rule.token line
      ("[1.1] socat[7]: ".toList ++ ("socat version".toList ++ [' '])) :=
    .after (by decide) (by decide)
  have trails : Trails ", on Dec  1".toList := by
    refine ⟨[','], " on Dec  1".toList, rfl, List.all_eq_true.1 rfl, ?_⟩
    rintro _ ⟨⟩
    decide
  have told : VersionLine socat.rule line token :=
    ⟨refused_of_any rfl, by decide, _, _, rfl, leads, trails⟩
  have version : IsVersion token :=
    ⟨by decide, refused_of_any rfl, ⟨'1', rfl, by decide⟩, ⟨'2', rfl, by decide⟩⟩
  have ends : ∀ c, after.head? = some c → isLineBreak c = true := by
    rintro _ ⟨⟩
    decide
  exact ⟨unread, told, version, ends, socat.extract_versionLine unread told version ends⟩

end NodeInventory.Tool
