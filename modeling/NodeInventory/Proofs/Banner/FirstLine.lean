import NodeInventory.Proofs.Banner.VersionLine
import NodeInventory.Proofs.Text.Pieces

/-!
# The line that decides

A valid rule reads every text without an error, and what it reads is up to the first line that its
line selector accepts.  So text that is put behind a line break counts only where no line before it
is accepted: a line without a token is not made up for by later ones.
-/

namespace NodeInventory.Banner.Rule

open Text

variable {rule : Rule} {text : List Char}

/-! ## Accepted lines -/

/-- Some line of the text is not blank and accepted by the line selector. -/
def AcceptsLineOf (rule : Rule) (text : List Char) : Prop :=
  ∃ line, IsPiece isLineBreak line text ∧ trim line ≠ [] ∧ rule.line.accepts (trim line) = true

/-- The first line of a text that a rule accepts; the rule passes over all that stands before. -/
structure Picks (rule : Rule) (text line : List Char) : Prop where
  unbroken : ∀ c ∈ line, isLineBreak c = false
  filled : trim line ≠ []
  accepted : rule.line.accepts (trim line) = true
  parts : ∃ block after, text = block ++ (line ++ after) ∧ Unread rule block ∧
    ∀ c, after.head? = some c → isLineBreak c = true

theorem line?_eq_none_iff : rule.line? text = none ↔ ¬AcceptsLineOf rule text := by
  rw [line?, List.find?_eq_none]
  constructor
  · rintro refused ⟨line, stands, filled, accepted⟩
    exact refused _ (mem_lines_iff.2 ⟨line, stands, filled, rfl⟩) accepted
  · intro none_accepted found mem accepted
    obtain ⟨line, stands, filled, rfl⟩ := mem_lines_iff.1 mem
    exact none_accepted ⟨line, stands, filled, accepted⟩

theorem Picks.line?_eq {line : List Char} (picks : Picks rule text line) :
    rule.line? text = some (trim line) := by
  obtain ⟨block, after, rfl, unread, ends⟩ := picks.parts
  rw [unread.line?_append,
    line?_append_of_accepts picks.unbroken ends picks.filled picks.accepted]

/-- A text of one line. -/
theorem Picks.of_unbroken (unbroken : ∀ c ∈ text, isLineBreak c = false) (filled : trim text ≠ [])
    (accepted : rule.line.accepts (trim text) = true) : Picks rule text text := by
  refine ⟨unbroken, filled, accepted, [], [], (List.append_nil text).symm, .nil, ?_⟩
  rintro _ ⟨⟩

/-- A line that is passed over, and the break behind it, hide nothing of what follows. -/
theorem Picks.of_later {first rest line : List Char} {c : Char}
    (unbroken : ∀ c ∈ first, isLineBreak c = false) (cut : isLineBreak c = true)
    (passed : IsBlankText first ∨ rule.line.accepts (trim first) = false)
    (picks : Picks rule rest line) : Picks rule (first ++ c :: rest) line := by
  obtain ⟨block, after, rfl, unread, ends⟩ := picks.parts
  exact { picks with
    parts := ⟨first ++ c :: block, after, by simp, .line unbroken cut passed unread, ends⟩ }

theorem exists_picks (accepts : AcceptsLineOf rule text) : ∃ line, Picks rule text line := by
  have passed_or (first : List Char) :
      (IsBlankText first ∨ rule.line.accepts (trim first) = false) ∨
        (trim first ≠ [] ∧ rule.line.accepts (trim first) = true) := by
    rw [← trim_eq_nil_iff, ← Bool.not_eq_true]
    tauto
  -- line by line: the first one is picked, or passed over
  induction text using cut_induction (p := isLineBreak) with
  | free s unbroken =>
      obtain ⟨line, stands, filled, accepted⟩ := accepts
      have whole := stands.mem_split
      rw [split_eq_singleton unbroken, List.mem_singleton] at whole
      subst whole
      exact ⟨line, .of_unbroken unbroken filled accepted⟩
  | cut first c rest unbroken cut ih =>
      rcases passed_or first with passed | ⟨filled, accepted⟩
      · obtain ⟨line, stands, filled, accepted⟩ := accepts
        have mem := stands.mem_split
        rw [split_append_cons unbroken cut] at mem
        rcases List.mem_cons.1 mem with rfl | later
        · rw [← trim_eq_nil_iff, accepted] at passed
          exact (passed.elim filled Bool.noConfusion).elim
        · obtain ⟨line, picks⟩ := ih ⟨line, mem_split_iff.1 later, filled, accepted⟩
          exact ⟨line, picks.of_later unbroken cut passed⟩
      · refine ⟨first, unbroken, filled, accepted, [], c :: rest, rfl, .nil, ?_⟩
        rintro _ ⟨⟩
        exact cut

theorem line?_eq_some_iff {found : List Char} :
    rule.line? text = some found ↔ ∃ line, Picks rule text line ∧ trim line = found := by
  constructor
  · intro eq
    have accepts : AcceptsLineOf rule text := by
      by_contra none_accepted
      cases eq.symm.trans (line?_eq_none_iff.2 none_accepted)
    obtain ⟨line, picks⟩ := exists_picks accepts
    exact ⟨line, picks, Option.some.inj (picks.line?_eq.symm.trans eq)⟩
  · rintro ⟨line, picks, rfl⟩
    exact picks.line?_eq

/-! ## Reading -/

theorem extract_of_valid (valid : rule.validate = .ok ()) (raw : String) :
    rule.extract raw = .ok ((rule.version? raw.toList).map String.ofList) := by
  rw [extract, valid]
  rfl

/-- A later part is read only where the first one has no line to read. -/
theorem version?_append_breaks (first : List Char) {breaks : List Char} (ne : breaks ≠ [])
    (cuts : ∀ c ∈ breaks, isLineBreak c = true) (second : List Char) :
    rule.version? (first ++ breaks ++ second) =
      ((rule.line? first).or (rule.line? second)).bind rule.token.capture := by
  rw [version?, line?, lines_append_breaks first ne cuts, List.find?_append, ← line?, ← line?]

/-- The first accepted line decides.  What is put behind a text after some line breaks is read where
no line of the text is accepted, and not otherwise, even if there is no token to read. -/
theorem extract_append_breaks (valid : rule.validate = .ok ()) (first second : String)
    {breaks : String} (ne : breaks ≠ "") (cuts : ∀ c ∈ breaks.toList, isLineBreak c = true) :
    (rule.AcceptsLineOf first.toList →
      rule.extract (first ++ breaks ++ second) = rule.extract first) ∧
    (∀ line, rule.Picks first.toList line →
      rule.extract (first ++ breaks ++ second) =
        .ok ((rule.token.capture (trim line)).map String.ofList)) ∧
    (∀ line, rule.Picks first.toList line → rule.token.capture (trim line) = none →
      rule.extract (first ++ breaks ++ second) = .ok none) ∧
    (¬rule.AcceptsLineOf first.toList →
      rule.extract (first ++ breaks ++ second) = rule.extract second) ∧
    ∀ text : String, (¬rule.AcceptsLineOf text.toList → rule.extract text = .ok none) ∧
      ∃ version, rule.extract text = .ok version := by
  have ne' : breaks.toList ≠ [] := mt String.toList_eq_nil_iff.1 ne
  have whole : rule.extract (first ++ breaks ++ second) =
      .ok ((((rule.line? first.toList).or (rule.line? second.toList)).bind
        rule.token.capture).map String.ofList) := by
    rw [extract_of_valid valid, String.toList_append, String.toList_append,
      version?_append_breaks _ ne' cuts]
  have decided (line : List Char) (picks : rule.Picks first.toList line) :
      rule.extract (first ++ breaks ++ second) =
        .ok ((rule.token.capture (trim line)).map String.ofList) := by
    rw [whole, picks.line?_eq]
    rfl
  refine ⟨fun accepts => ?_, decided, fun line picks bare => ?_, fun refused => ?_,
    fun text => ⟨fun refused => ?_, _, extract_of_valid valid text⟩⟩
  · obtain ⟨line, picks⟩ := exists_picks accepts
    rw [decided line picks, extract_of_valid valid, version?, picks.line?_eq]
    rfl
  · rw [decided line picks, bare]
    rfl
  · rw [whole, line?_eq_none_iff.2 refused, extract_of_valid valid, version?]
    rfl
  · rw [extract_of_valid valid, version?, line?_eq_none_iff.2 refused]
    rfl

/-- The version in the second line is not read: the first line is accepted, and has none. -/
theorem extract_append_breaks_of_bare_line :
    Tool.fleetd.rule.validate = .ok () ∧ "\r\n" ≠ "" ∧
      (∀ c ∈ "\r\n".toList, isLineBreak c = true) ∧
      Tool.fleetd.rule.Picks "fleetd version".toList "fleetd version".toList ∧
      Tool.fleetd.rule.extract ("fleetd version" ++ "\r\n" ++ "fleetd version v2.0.0") =
        .ok none := by
  have cuts : ∀ c ∈ "\r\n".toList, isLineBreak c = true := List.all_eq_true.1 (by decide)
  have picks : Tool.fleetd.rule.Picks "fleetd version".toList "fleetd version".toList :=
    .of_unbroken (refused_of_any rfl) (by decide) (by decide)
  have decided := extract_append_breaks Tool.fleetd.validate_rule "fleetd version"
    "fleetd version v2.0.0" (by decide) cuts
  exact ⟨Tool.fleetd.validate_rule, by decide, cuts, picks,
    decided.2.2.1 _ picks (by decide)⟩

end NodeInventory.Banner.Rule
