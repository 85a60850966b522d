import Mathlib.Logic.Relation
import NodeInventory.Proofs.Text.Pieces
import NodeInventory.Tool

/-!
# The layout of a text

How the lines of a text are ended and padded, and which blank lines stand among them, is its layout.
Two texts are the same up to their layout exactly where they have the same lines
(`relaid_iff_lines_eq`), and lines are all that a rule sees of a text.
-/

namespace NodeInventory.Text

/-! ## Changes of layout -/

/-- What ends a line: a mix of newlines and carriage returns, of one at least. -/
structure IsEnding (ending : List Char) : Prop where
  ne_nil : ending ≠ []
  breaks : ∀ c ∈ ending, isLineBreak c = true

/-- Behind such a text, a line starts. -/
def StartsLine (before : List Char) : Prop :=
  ∀ c, before.getLast? = some c → isLineBreak c = true

/-- In front of such a text, a line ends. -/
def EndsLine (after : List Char) : Prop := ∀ c, after.head? = some c → isLineBreak c = true

/-- One change of the layout of a text. -/
inductive LayoutStep : List Char → List Char → Prop
  /-- A line is ended in another way. -/
  | ending (before : List Char) {old new : List Char} (after : List Char) (ends : IsEnding old)
      (ends' : IsEnding new) : LayoutStep (before ++ (old ++ after)) (before ++ (new ++ after))
  /-- A blank line is put where a line starts. -/
  | blankLine {before gap ending : List Char} (after : List Char) (starts : StartsLine before)
      (blank : IsBlankText gap) (ends : IsEnding ending) :
      LayoutStep (before ++ after) (before ++ (gap ++ ending ++ after))
  /-- Blanks are put in front of a line. -/
  | padStart {before gap : List Char} (after : List Char) (starts : StartsLine before)
      (blank : IsBlankText gap) : LayoutStep (before ++ after) (before ++ (gap ++ after))
  /-- Blanks are put behind a line. -/
  | padEnd (before : List Char) {gap after : List Char} (ends : EndsLine after)
      (blank : IsBlankText gap) : LayoutStep (before ++ after) (before ++ (gap ++ after))
  /-- The last line is ended. -/
  | finalEnding (text : List Char) {ending : List Char} (ends : IsEnding ending) :
      LayoutStep text (text ++ ending)

/-- Any combination of changes of layout, there and back. -/
def Relaid : List Char → List Char → Prop := Relation.EqvGen LayoutStep

theorem LayoutStep.relaid {s t : List Char} (step : LayoutStep s t) : Relaid s t := .rel _ _ step

theorem Relaid.refl (s : List Char) : Relaid s s := Relation.EqvGen.refl s

theorem Relaid.symm {s t : List Char} (relaid : Relaid s t) : Relaid t s :=
  Relation.EqvGen.symm _ _ relaid

theorem Relaid.trans {s t u : List Char} (first : Relaid s t) (second : Relaid t u) :
    Relaid s u :=
  Relation.EqvGen.trans _ _ _ first second

theorem IsEnding.isBlankText {ending : List Char} (ends : IsEnding ending) : IsBlankText ending :=
  fun c mem => isBlank_of_isLineBreak (ends.breaks c mem)

theorem IsEnding.endsLine {ending : List Char} (ends : IsEnding ending) (after : List Char) :
    EndsLine (ending ++ after) := by
  obtain ⟨c, rest, rfl⟩ := List.exists_cons_of_ne_nil ends.ne_nil
  rintro _ ⟨⟩
  exact ends.breaks c List.mem_cons_self

theorem isEnding_singleton {c : Char} (cut : isLineBreak c = true) : IsEnding [c] where
  ne_nil := List.cons_ne_nil c []
  breaks := List.forall_mem_singleton.2 cut

theorem startsLine_nil : StartsLine [] := by rintro _ ⟨⟩

theorem StartsLine.append {before s : List Char} (starts : StartsLine before)
    (starts' : StartsLine s) : StartsLine (before ++ s) := by
  intro c last
  rw [List.getLast?_append] at last
  cases eq : s.getLast? with
  | none =>
      rw [eq] at last
      exact starts c last
  | some d =>
      rw [eq] at last
      exact starts' c (eq.trans last)

/-! ## Lines and blanks -/

theorem lines_of_unbroken {s : List Char} (unbroken : ∀ c ∈ s, isLineBreak c = false) :
    lines s = [trim s].filter (· ≠ []) := by
  rw [lines, split_eq_singleton unbroken]
  rfl

theorem lines_cons_of_isBlank {c : Char} (blank : isBlank c = true) (s : List Char) :
    lines (c :: s) = lines s := by
  by_cases cut : isLineBreak c = true
  · exact lines_append_break [] cut s
  have kept (line : List Char) : trim (c :: line) = trim line := by
    have padded : trim ([c] ++ (line ++ [])) = trim line :=
      trim_pad (isBlankText_singleton blank) isBlankText_nil line
    rwa [List.append_nil] at padded
  have unbroken {line : List Char} (free : ∀ d ∈ line, isLineBreak d = false) :
      ∀ d ∈ c :: line, isLineBreak d = false :=
    List.forall_mem_cons.2 ⟨Bool.not_eq_true _ ▸ cut, free⟩
  cases s using cut_induction (p := isLineBreak) with
  | free s free => rw [lines_of_unbroken (unbroken free), lines_of_unbroken free, kept]
  | cut first b rest free ends _ =>
      rw [← List.cons_append, lines_append_cons (unbroken free) ends, lines_append_cons free ends,
        kept]

theorem lines_concat_of_isBlank (s : List Char) {c : Char} (blank : isBlank c = true) :
    lines (s ++ [c]) = lines s := by
  by_cases cut : isLineBreak c = true
  · exact (lines_append_break s cut []).trans (List.append_nil _)
  induction s using cut_induction (p := isLineBreak) with
  | free s free =>
      have kept : trim ([] ++ (s ++ [c])) = trim s :=
        trim_pad isBlankText_nil (isBlankText_singleton blank) s
      have unbroken : ∀ d ∈ s ++ [c], isLineBreak d = false :=
        List.forall_mem_append.2 ⟨free, List.forall_mem_singleton.2 (Bool.not_eq_true _ ▸ cut)⟩
      rw [lines_of_unbroken unbroken, lines_of_unbroken free, ← kept, List.nil_append]
  | cut first b rest free ends ih =>
      rw [List.append_assoc, List.cons_append, lines_append_cons free ends,
        lines_append_cons free ends, ih]

theorem lines_append_of_blank_left {gap : List Char} (blank : IsBlankText gap) (s : List Char) :
    lines (gap ++ s) = lines s := by
  induction gap with
  | nil => rfl
  | cons c gap ih =>
      rw [List.cons_append, lines_cons_of_isBlank (blank c List.mem_cons_self)]
      exact ih fun d mem => blank d (List.mem_cons_of_mem _ mem)

theorem lines_append_of_blank_right (s : List Char) {gap : List Char} (blank : IsBlankText gap) :
    lines (s ++ gap) = lines s := by
  induction gap generalizing s with
  | nil => rw [List.append_nil]
  | cons c gap ih =>
      rw [List.append_cons, ih _ fun d mem => blank d (List.mem_cons_of_mem _ mem)]
      exact lines_concat_of_isBlank s (blank c List.mem_cons_self)

/-- Where a line starts, the lines behind are apart from those before. -/
theorem lines_append_of_startsLine {before : List Char} (starts : StartsLine before)
    (after : List Char) : lines (before ++ after) = lines before ++ lines after := by
  rcases List.eq_nil_or_concat' before with rfl | ⟨before, c, rfl⟩
  · rfl
  · have cut : isLineBreak c = true := starts c List.getLast?_concat
    rw [List.append_assoc, List.singleton_append, lines_append_break before cut,
      lines_concat_of_isBlank before (isBlank_of_isLineBreak cut)]

theorem lines_append_of_endsLine (before : List Char) {after : List Char}
    (ends : EndsLine after) : lines (before ++ after) = lines before ++ lines after := by
  cases after with
  | nil => rw [List.append_nil]; exact (List.append_nil _).symm
  | cons c after =>
      have cut : isLineBreak c = true := ends c rfl
      rw [lines_append_break before cut, lines_cons_of_isBlank (isBlank_of_isLineBreak cut)]

/-! ## Texts with the same lines -/

theorem LayoutStep.lines_eq {s t : List Char} (step : LayoutStep s t) : lines s = lines t := by
  cases step with
  | ending before after ends ends' =>
      rw [← List.append_assoc, ← List.append_assoc,
        lines_append_breaks before ends.ne_nil ends.breaks,
        lines_append_breaks before ends'.ne_nil ends'.breaks]
  | blankLine after starts blank ends =>
      rw [lines_append_of_startsLine starts, lines_append_of_startsLine starts,
        lines_append_of_blank_left (blank.append ends.isBlankText)]
  | padStart after starts blank =>
      rw [lines_append_of_startsLine starts, lines_append_of_startsLine starts,
        lines_append_of_blank_left blank]
  | padEnd before ends blank =>
      rw [← List.append_assoc, lines_append_of_endsLine _ ends, lines_append_of_endsLine _ ends,
        lines_append_of_blank_right before blank]
  | finalEnding text ends => exact (lines_append_of_blank_right s ends.isBlankText).symm

theorem Relaid.lines_eq {s t : List Char} (relaid : Relaid s t) : lines s = lines t := by
  induction relaid with
  | rel _ _ step => exact step.lines_eq
  | refl _ => rfl
  | symm _ _ _ ih => exact ih.symm
  | trans _ _ _ _ _ ih ih' => exact ih.trans ih'

/-- A change of layout behind a place where a line starts is one of the whole text. -/
theorem LayoutStep.append_left {before s t : List Char} (starts : StartsLine before)
    (step : LayoutStep s t) : LayoutStep (before ++ s) (before ++ t) := by
  cases step with
  | ending first after ends ends' =>
      rw [← List.append_assoc before, ← List.append_assoc before]
      exact .ending (before ++ first) after ends ends'
  | blankLine after starts' blank ends =>
      rw [← List.append_assoc before, ← List.append_assoc before]
      exact .blankLine after (starts.append starts') blank ends
  | padStart after starts' blank =>
      rw [← List.append_assoc before, ← List.append_assoc before]
      exact .padStart after (starts.append starts') blank
  | padEnd first ends blank =>
      rw [← List.append_assoc before, ← List.append_assoc before]
      exact .padEnd (before ++ first) ends blank
  | finalEnding text ends =>
      rw [← List.append_assoc]
      exact .finalEnding (before ++ s) ends

theorem Relaid.append_left {before s t : List Char} (starts : StartsLine before)
    (relaid : Relaid s t) : Relaid (before ++ s) (before ++ t) := by
  induction relaid with
  | rel _ _ step => exact (step.append_left starts).relaid
  | refl s => exact .refl _
  | symm _ _ _ ih => exact ih.symm
  | trans _ _ _ _ _ ih ih' => exact ih.trans ih'

/-- The lines, each ended by one newline. -/
def unlines (found : List (List Char)) : List Char := found.flatMap (· ++ ['\n'])

theorem startsLine_unlines (found : List (List Char)) : StartsLine (unlines found) := by
  induction found with
  | nil => exact startsLine_nil
  | cons line found ih =>
      have newline : StartsLine (line ++ ['\n']) := by
        intro c last
        rw [List.getLast?_concat] at last
        cases last
        rfl
      exact newline.append ih

/-- A blank line goes away; of any other only the trimmed line stays. -/
theorem relaid_line (line : List Char) {ending : List Char} (ends : IsEnding ending)
    (rest : List Char) :
    Relaid (line ++ (ending ++ rest)) (unlines ([trim line].filter (· ≠ [])) ++ rest) := by
  by_cases empty : trim line = []
  · rw [empty, ← List.append_assoc]
    exact (LayoutStep.blankLine rest startsLine_nil (trim_eq_nil_iff.1 empty) ends).relaid.symm
  · obtain ⟨before, behind, blank, blank', eq⟩ := exists_strip isBlank line
    have unindented : Relaid (before ++ (trim line ++ (behind ++ (ending ++ rest))))
        (trim line ++ (behind ++ (ending ++ rest))) :=
      (LayoutStep.padStart _ startsLine_nil blank).relaid.symm
    have stripped : Relaid (trim line ++ (behind ++ (ending ++ rest)))
        (trim line ++ (ending ++ rest)) :=
      (LayoutStep.padEnd _ (ends.endsLine rest) blank').relaid.symm
    have ended : Relaid (trim line ++ (ending ++ rest)) (trim line ++ (['\n'] ++ rest)) :=
      (LayoutStep.ending _ rest ends (isEnding_singleton rfl)).relaid
    have whole : line ++ (ending ++ rest) =
        before ++ (trim line ++ (behind ++ (ending ++ rest))) := by
      conv_lhs => rw [eq]
      simp only [List.append_assoc, trim]
    have kept : unlines ([trim line].filter (· ≠ [])) ++ rest = trim line ++ (['\n'] ++ rest) := by
      rw [List.filter_cons, if_pos (decide_eq_true empty), List.filter_nil, unlines,
        List.flatMap_singleton, List.append_assoc]
    rw [whole, kept]
    exact (unindented.trans stripped).trans ended

theorem relaid_unlines (s : List Char) : Relaid s (unlines (lines s)) := by
  induction s using cut_induction (p := isLineBreak) with
  | free s unbroken =>
      have ended : Relaid s (s ++ (['\n'] ++ [])) :=
        (LayoutStep.finalEnding s (isEnding_singleton rfl)).relaid
      have laid := ended.trans (relaid_line s (isEnding_singleton rfl) [])
      rwa [List.append_nil, ← lines_of_unbroken unbroken] at laid
  | cut first b rest unbroken cut ih =>
      rw [lines_append_cons unbroken cut, unlines, List.flatMap_append]
      exact (relaid_line first (isEnding_singleton cut) rest).trans
        (ih.append_left (startsLine_unlines _))

theorem relaid_iff_lines_eq {s t : List Char} : Relaid s t ↔ lines s = lines t := by
  refine ⟨Relaid.lines_eq, fun same => ?_⟩
  have laid := relaid_unlines s
  rw [same] at laid
  exact laid.trans (relaid_unlines t).symm

end NodeInventory.Text

namespace NodeInventory.Banner.Rule

open Text

/-- Changes of layout leave the lines of a text as they are, and change nothing that is read from
it, by whatever rule.  No further change leaves all lines as they are. -/
theorem extract_of_relaid {raw raw' : String} :
    (Relaid raw.toList raw'.toList → ∀ rule : Rule, rule.extract raw = rule.extract raw') ∧
      (Relaid raw.toList raw'.toList ↔ lines raw.toList = lines raw'.toList) := by
  refine ⟨fun relaid rule => ?_, relaid_iff_lines_eq⟩
  rw [extract, extract, version?, version?, line?, line?, relaid.lines_eq]

/-- Other endings, a blank line, blanks around the lines, and no ending of the last one. -/
theorem extract_of_relaid_padded :
    Relaid "etcd Version: 3.3.1\r\nGit SHA: abc\rGo Version: go1.9\n".toList
        "\n\u2028 \r\n\tetcd Version: 3.3.1\u0085\r\r\n Git SHA: abc \nGo Version: go1.9".toList ∧
      Tool.etcd.rule.extract "etcd Version: 3.3.1\r\nGit SHA: abc\rGo Version: go1.9\n" =
        Tool.etcd.rule.extract
          "\n\u2028 \r\n\tetcd Version: 3.3.1\u0085\r\r\n Git SHA: abc \nGo Version: go1.9" := by
  have relaid : Relaid "etcd Version: 3.3.1\r\nGit SHA: abc\rGo Version: go1.9\n".toList
      "\n\u2028 \r\n\tetcd Version: 3.3.1\u0085\r\r\n Git SHA: abc \nGo Version: go1.9".toList :=
    relaid_iff_lines_eq.2 (by decide)
  exact ⟨relaid, extract_of_relaid.1 relaid Tool.etcd.rule⟩

end NodeInventory.Banner.Rule
