import NodeInventory.Proofs.Banner.FirstLine
import NodeInventory.Proofs.Collection.Gathering

/-!
# What a tool's answer comes to

The lines of a run are those of standard output and then those of standard error.  So a rule looks
at standard error only where it accepts no line of standard output, and what becomes of a tool is
settled by the result of its run alone.
-/

namespace NodeInventory

open Banner Command Text

/-- No line of a run is made of both streams. -/
theorem Command.Output.lines_combined (output : Output) :
    lines output.combined.toList = lines output.stdout.toList ++ lines output.stderr.toList := by
  unfold combined
  split
  next silent =>
    rw [silent]
    exact (List.append_nil _).symm
  split
  next silent =>
    rw [silent]
    rfl
  next =>
    rw [String.toList_append, String.toList_append, List.append_assoc]
    exact lines_append_break output.stdout.toList (c := '\n') (by decide) output.stderr.toList

/-! ## What a rule reads from a run -/

/-- The token of the first line that a rule accepts on standard output, or, where it accepts none
there, of the first one on standard error. -/
def Banner.Rule.answer? (rule : Rule) (output : Output) : Option (List Char) :=
  match rule.line? output.stdout.toList with
  | some line => rule.token.capture line
  | none => (rule.line? output.stderr.toList).bind rule.token.capture

theorem Banner.Rule.version?_combined (rule : Rule) (output : Output) :
    rule.version? output.combined.toList = rule.answer? output := by
  have first : rule.line? output.combined.toList =
      (rule.line? output.stdout.toList).or (rule.line? output.stderr.toList) := by
    rw [line?, output.lines_combined, List.find?_append, ← line?, ← line?]
  rw [version?, first, answer?]
  cases rule.line? output.stdout.toList <;> rfl

/-- What a run shows to a rule: the first line that it accepts decides, and one of standard error
only where it accepts none of standard output. -/
inductive Banner.Rule.Shows (rule : Rule) (output : Output) : Option (List Char) → Prop
  | stdout {line} (picks : rule.Picks output.stdout.toList line) :
      Shows rule output (rule.token.capture (trim line))
  | stderr {line} (silent : ¬rule.AcceptsLineOf output.stdout.toList)
      (picks : rule.Picks output.stderr.toList line) :
      Shows rule output (rule.token.capture (trim line))
  | nothing (silent : ¬rule.AcceptsLineOf output.stdout.toList)
      (silent' : ¬rule.AcceptsLineOf output.stderr.toList) : Shows rule output none

namespace Banner.Rule

variable {rule : Rule} {output : Output}

theorem shows_answer? : rule.Shows output (rule.answer? output) := by
  by_cases accepts : rule.AcceptsLineOf output.stdout.toList
  · obtain ⟨line, picks⟩ := exists_picks accepts
    simp only [answer?, picks.line?_eq]
    exact .stdout picks
  simp only [answer?, line?_eq_none_iff.2 accepts]
  by_cases accepts' : rule.AcceptsLineOf output.stderr.toList
  · obtain ⟨line, picks⟩ := exists_picks accepts'
    rw [picks.line?_eq]
    exact .stderr accepts picks
  · rw [line?_eq_none_iff.2 accepts']
    exact .nothing accepts accepts'

theorem shows_iff {shown : Option (List Char)} :
    rule.Shows output shown ↔ rule.answer? output = shown := by
  constructor
  · intro shows_it
    cases shows_it with
    | stdout picks => simp only [answer?, picks.line?_eq]
    | stderr silent picks =>
        simp only [answer?, line?_eq_none_iff.2 silent, picks.line?_eq]
        rfl
    | nothing silent silent' =>
        simp only [answer?, line?_eq_none_iff.2 silent, line?_eq_none_iff.2 silent']
        rfl
  · rintro rfl
    exact shows_answer?

end Banner.Rule

namespace Outcome

theorem version?_eq_some_iff {outcome : Outcome} {version : String} :
    outcome.version? = some version ↔ outcome = .found version := by
  cases outcome <;> simp [version?]

/-- A clean run of a registered tool shows a version or is not recognized. -/
theorem ofOutput_eq (tool : Tool) (output : Output) :
    ofOutput tool output =
      match tool.rule.answer? output with
      | some token => .found (String.ofList token)
      | none => .unrecognized := by
  rw [ofOutput, Rule.extract, tool.validate_rule, Rule.version?_combined]
  cases tool.rule.answer? output <;> rfl

/-! ## What becomes of a tool -/

/-- When the result of a run comes to each outcome. -/
structure Settles (tool : Tool) (result : Command.Result) (outcome : Outcome) : Prop where
  found_iff : ∀ version, outcome = .found version ↔ ∃ output, result = .ok output ∧
    output.status = .success ∧ tool.rule.Shows output (some version.toList)
  notInstalled_iff : outcome = .notInstalled ↔ ∃ program, result = .error (.notInstalled program)
  /-- Whatever a failed run has written. -/
  invocationFailed_iff : ∀ reason, outcome = .invocationFailed reason ↔
    (∃ error, result = .error error ∧ (∀ program, error ≠ .notInstalled program) ∧
      reason = error.message) ∨
    ∃ output, result = .ok output ∧ output.status = .failed ∧ reason = exitText output.exitCode
  unrecognized_iff : outcome = .unrecognized ↔ ∃ output, result = .ok output ∧
    output.status = .success ∧ tool.rule.Shows output none
  ne_invalidRule : ∀ reason, outcome ≠ .invalidRule reason
  /-- A line of standard output without a token hides all that standard error holds. -/
  unrecognized_of_bare_line : ∀ output line, result = .ok output → output.status = .success →
    tool.rule.Picks output.stdout.toList line → tool.rule.token.capture (trim line) = none →
    outcome = .unrecognized
  lines_apart : ∀ output, result = .ok output →
    lines output.combined.toList = lines output.stdout.toList ++ lines output.stderr.toList

theorem settles_of_error (tool : Tool) (error : RunError) :
    Settles tool (.error error) (ofResult tool (.error error)) := by
  cases error <;> constructor <;> simp [ofResult, eq_comm]

theorem settles_of_failed (tool : Tool) {output : Output} (failed : output.status = .failed) :
    Settles tool (.ok output) (ofResult tool (.ok output)) := by
  have settled : ofResult tool (.ok output) = .invocationFailed (exitText output.exitCode) :=
    if_pos failed
  rw [settled]
  constructor
  case unrecognized_of_bare_line =>
    rintro _ line ⟨⟩ success
    cases failed.symm.trans success
  all_goals simp [failed, output.lines_combined, eq_comm]

theorem settles_of_success (tool : Tool) {output : Output} (success : output.status = .success) :
    Settles tool (.ok output) (ofResult tool (.ok output)) := by
  have clean : output.status ≠ .failed := by
    rw [success]
    exact Status.noConfusion
  have settled : ofResult tool (.ok output) = ofOutput tool output := if_neg clean
  rw [settled, ofOutput_eq]
  have of_bare_line : ∀ line, tool.rule.Picks output.stdout.toList line →
      tool.rule.token.capture (trim line) = none → tool.rule.answer? output = none := by
    intro line picks bare
    exact Rule.shows_iff.1 (bare ▸ .stdout picks)
  cases answer : tool.rule.answer? output with
  | none => constructor <;> simp [success, Rule.shows_iff, answer, output.lines_combined]
  | some token =>
      rw [answer] at of_bare_line
      constructor
      case found_iff =>
        intro version
        simp [success, Rule.shows_iff, answer, ← String.toList_inj]
      case unrecognized_of_bare_line =>
        rintro _ line ⟨⟩ - picks bare
        cases of_bare_line line picks bare
      all_goals simp [success, Rule.shows_iff, answer, output.lines_combined]

theorem settles_ofResult (tool : Tool) (result : Command.Result) :
    Settles tool result (ofResult tool result) := by
  cases result with
  | error error => exact settles_of_error tool error
  | ok output =>
      cases status : output.status with
      | failed => exact settles_of_failed tool status
      | success => exact settles_of_success tool status

end Outcome

/-- The outcome that is recorded at each place is settled by the answer to the tool's command. -/
theorem survey_settles (runner : Runner) (before : Nat) (tools : List Tool)
    (i : Fin tools.length) :
    ∃ outcome, (survey runner before tools).outcomes[i.val]? = some (tools.get i, outcome) ∧
      Outcome.Settles (tools.get i) (runner (before + i) (tools.get i).invocation).result
        outcome := by
  refine ⟨_, ?_, Outcome.settles_ofResult _ _⟩
  rw [getElem?_outcomes, List.getElem?_eq_getElem i.isLt]
  rfl

/-- The first tool takes too long.  The second one is found on standard error, as no line of its
standard output is accepted.  The third one is not recognized, for all that standard error holds. -/
theorem survey_settles_of_streams :
    let runner : Runner := fun _ invocation =>
      if invocation.program = "vault" then ⟨.ok ⟨.success, some 0, "warning\n", "Vault v1.2.3"⟩, 7⟩
      else if invocation.program = "socat" then
        ⟨.ok ⟨.success, some 0, "socat version", "socat version 1.7.4"⟩, 0⟩
      else ⟨.error (.timeout 5000), 5000⟩
    let outcomes := (survey runner 0 [.kernel, .vault, .socat]).outcomes
    outcomes[0]? = some (.kernel, .invocationFailed "Process timeout after 5000ms") ∧
      outcomes[1]? = some (.vault, .found "v1.2.3") ∧
      outcomes[2]? = some (.socat, .unrecognized) := by
  intro runner outcomes
  have settles := survey_settles runner 0 [.kernel, .vault, .socat]
  refine ⟨?kernel, ?vault, ?socat⟩
  case kernel =>
    obtain ⟨outcome, recorded, settled⟩ := settles ⟨0, by decide⟩
    obtain rfl := (settled.invocationFailed_iff "Process timeout after 5000ms").2
      (.inl ⟨.timeout 5000, rfl, nofun, by decide⟩)
    exact recorded
  case vault =>
    obtain ⟨outcome, recorded, settled⟩ := settles ⟨1, by decide⟩
    have silent : ¬Tool.vault.rule.AcceptsLineOf "warning\n".toList :=
      Rule.line?_eq_none_iff.1 (by decide)
    have picks : Tool.vault.rule.Picks "Vault v1.2.3".toList "Vault v1.2.3".toList :=
      .of_unbroken (refused_of_any rfl) (by decide) (by decide)
    have captured : Tool.vault.rule.token.capture (trim "Vault v1.2.3".toList) =
        some "v1.2.3".toList := by decide
    obtain rfl := (settled.found_iff "v1.2.3").2 ⟨_, rfl, rfl, captured ▸ .stderr silent picks⟩
    exact recorded
  case socat =>
    obtain ⟨outcome, recorded, settled⟩ := settles ⟨2, by decide⟩
    have picks : Tool.socat.rule.Picks "socat version".toList "socat version".toList :=
      .of_unbroken (refused_of_any rfl) (by decide) (by decide)
    obtain rfl := settled.unrecognized_of_bare_line _ _ rfl rfl picks (by decide)
    exact recorded

end NodeInventory
