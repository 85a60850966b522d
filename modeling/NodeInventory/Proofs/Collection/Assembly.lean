import NodeInventory.Proofs.Banner.Token
import NodeInventory.Proofs.Collection.Outcome
import NodeInventory.Proofs.Report.Versions

/-!
# What a report is made of

A version that a rule reads is never blank, so that the check of a report's versions passes on all
that the tools have told.  Whether there is a report, and why there is none, is up to the probe.
-/

namespace NodeInventory

open Banner Command Text

/-! ## Versions that are read -/

namespace Banner

theorem isBlankVersion_of_capture {selector : TokenSelector} {line token : List Char}
    (captured : selector.capture line = some token) :
    Report.isBlankVersion (String.ofList token) = false := by
  obtain ⟨ne, solid⟩ := solid_of_capture captured
  have kept : trim token = token := strip_eq_self (.of_forall ne solid)
  rw [Report.isBlankVersion, String.toList_ofList, kept]
  exact decide_eq_false ne

/-- Whatever the rule and the text. -/
theorem Rule.isBlankVersion_of_extract {rule : Rule} {raw version : String}
    (read : rule.extract raw = .ok (some version)) : Report.isBlankVersion version = false := by
  obtain ⟨-, line, -, captured⟩ := extract_eq_some_iff.1 read
  rw [← String.ofList_toList (s := version)]
  exact isBlankVersion_of_capture captured

end Banner

/-- A version that is found was read by the rule of its tool. -/
theorem Outcome.exists_extract_of_found {tool : Tool} {result : Command.Result} {version : String}
    (found : ofResult tool result = .found version) :
    ∃ raw, tool.rule.extract raw = .ok (some version) := by
  obtain ⟨output, -, -, shown⟩ := ((settles_ofResult tool result).found_iff version).1 found
  refine ⟨output.combined, ?_⟩
  rw [Rule.extract, tool.validate_rule, Rule.version?_combined, Rule.shows_iff.1 shown]
  exact congrArg (Except.ok ∘ some) (String.ofList_toList)

theorem isBlankVersion_of_survey {runner : Runner} {before : Nat} {tools : List Tool}
    {entry : String × String}
    (mem : entry ∈ (survey runner before tools).outcomes.versions.entries) :
    Report.isBlankVersion entry.2 = false := by
  obtain ⟨recorded, asked, told⟩ := List.mem_filterMap.1 (Versions.mem_of_mem_ofList mem)
  obtain ⟨i, tool, -, rfl⟩ := mem_outcomes.1 asked
  obtain ⟨version, found, rfl⟩ := Option.map_eq_some_iff.1 told
  obtain ⟨raw, read⟩ := Outcome.exists_extract_of_found (Outcome.version?_eq_some_iff.1 found)
  exact Rule.isBlankVersion_of_extract read

/-! ## Reports that are made -/

theorem Report.of_eq_ok {interfaces : List Interface} {boot : BootRecord} {versions : Versions}
    (filled : ∀ entry ∈ versions.entries, isBlankVersion entry.2 = false) :
    Report.of interfaces boot versions = .ok ⟨interfaces, boot, versions⟩ := by
  have none_blank : versions.entries.find? (fun entry => isBlankVersion entry.2) = none :=
    List.find?_eq_none.2 fun entry mem => by
      rw [filled entry mem]
      exact Bool.false_ne_true
  rw [Report.of, none_blank]

/-- A collection whose success, failure and parts are those of the probe, but for the versions,
which are those that the survey has found. -/
structure FollowsProbe (probe : Probe) (collected : Except Failure Report × Survey) : Prop where
  succeeds_iff : (∃ report, collected.1 = .ok report) ↔
    (∃ interfaces, probe.interfaces = .ok interfaces) ∧ ∃ boot, probe.boot = .ok boot
  /-- Whatever the boot record. -/
  interfaces_error : ∀ error, probe.interfaces = .error error →
    collected.1 = .error (.probe error)
  boot_error : ∀ interfaces error, probe.interfaces = .ok interfaces → probe.boot = .error error →
    collected.1 = .error (.probe error)
  ne_inventory : ∀ error, collected.1 ≠ .error (.inventory error)
  parts : ∀ report, collected.1 = .ok report → probe.interfaces = .ok report.interfaces ∧
    probe.boot = .ok report.boot ∧ report.versions = collected.2.outcomes.versions

/-- No version that a rule reads is blank, and so a collection fails only where the probe does. -/
theorem collect_followsProbe (runner : Runner) (before : Nat) (tools : List Tool) (probe : Probe) :
    (∀ (rule : Rule) (raw version : String), rule.extract raw = .ok (some version) →
      Report.isBlankVersion version = false) ∧
    (collect runner before tools probe).2 = survey runner before tools ∧
    FollowsProbe probe (collect runner before tools probe) := by
  refine ⟨fun rule raw version read => Rule.isBlankVersion_of_extract read, rfl, ?_⟩
  have checked (interfaces : List Interface) (boot : BootRecord) :
      Report.of interfaces boot (survey runner before tools).outcomes.versions =
        .ok ⟨interfaces, boot, (survey runner before tools).outcomes.versions⟩ :=
    Report.of_eq_ok fun _ => isBlankVersion_of_survey
  obtain ⟨interfaces, boot⟩ := probe
  cases interfaces with
  | error error => constructor <;> simp [collect, assemble]
  | ok interfaces =>
      cases boot with
      | error error => constructor <;> simp [collect, assemble]
      | ok boot =>
          constructor <;> simp [collect, assemble, checked]

/-- Of two tools one is found, and its version arrives in the report. -/
theorem collect_followsProbe_of_kernel :
    let runner : Runner := fun _ invocation =>
      if invocation.program = "uname" then ⟨.ok ⟨.success, some 0, "6.1.0\n", ""⟩, 3⟩
      else ⟨.error (.notInstalled invocation.program), 0⟩
    let loopback : Interface := ⟨"127.0.0.1", "127.0.0.1/8", 8, "lo", ""⟩
    let probe : Probe := ⟨.ok [loopback], .ok ⟨"52:54:00:e8:32:5b", "2023e709"⟩⟩
    ∃ report, (collect runner 0 [.vault, .kernel] probe).1 = .ok report ∧
      report.interfaces = [loopback] ∧ report.boot = ⟨"52:54:00:e8:32:5b", "2023e709"⟩ ∧
      report.versions.entries = [("kernel", "6.1.0")] := by
  intro runner loopback probe
  obtain ⟨-, -, follows⟩ := collect_followsProbe runner 0 [.vault, .kernel] probe
  obtain ⟨report, made⟩ := follows.succeeds_iff.2 ⟨⟨_, rfl⟩, _, rfl⟩
  obtain ⟨interfaces, boot, versions⟩ := follows.parts report made
  refine ⟨report, made, (Except.ok.inj interfaces).symm, (Except.ok.inj boot).symm, ?_⟩
  rw [versions]
  decide +kernel

end NodeInventory
