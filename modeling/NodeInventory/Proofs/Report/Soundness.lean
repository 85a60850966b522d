import NodeInventory.Proofs.Collection.Assembly
import NodeInventory.Proofs.Node.HardwareAddress
import NodeInventory.Proofs.Report.RoundTrip
import NodeInventory.Proofs.Report.Spelling

/-!
# Reports that are made and reports that are read

A report that is made of its parts has no blank version and an address in normal form.  Reading
checks neither: what a text spells is what it is read as, so that a report that is read keeps these
laws only where its text spells one that can be made.
-/

namespace NodeInventory

open Json Text.Utf8

namespace Report

/-- The laws of a report: no version is blank, and the address of its boot record, which is part of
the node's identity, is in normal form. -/
structure IsSound (report : Report) : Prop where
  filled : ∀ entry ∈ report.versions.entries, isBlankVersion entry.2 = false
  normal : normalizeMac report.boot.mac = report.boot.mac

/-! ## Making reports -/

theorem of_eq_ok_iff {interfaces : List Interface} {boot : BootRecord} {versions : Versions}
    {report : Report} :
    Report.of interfaces boot versions = .ok report ↔
      report = ⟨interfaces, boot, versions⟩ ∧
        ∀ entry ∈ versions.entries, isBlankVersion entry.2 = false := by
  constructor
  · intro made
    rw [Report.of] at made
    split at made
    next => cases made
    next none_blank =>
      cases made
      exact ⟨rfl, fun entry mem => eq_false_of_ne_true (List.find?_eq_none.1 none_blank entry mem)⟩
  · rintro ⟨rfl, filled⟩
    exact of_eq_ok filled

/-- The sound reports are those that can be made. -/
theorem isSound_iff {report : Report} :
    IsSound report ↔ ∃ interfaces mac uuid versions,
      Report.of interfaces (BootRecord.of mac uuid) versions = .ok report := by
  constructor
  · rintro ⟨filled, normal⟩
    obtain ⟨interfaces, ⟨mac, uuid⟩, versions⟩ := report
    refine ⟨interfaces, mac, uuid, versions, of_eq_ok_iff.2 ⟨?_, filled⟩⟩
    rw [BootRecord.of, normal]
  · rintro ⟨interfaces, mac, uuid, versions, made⟩
    obtain ⟨rfl, filled⟩ := of_eq_ok_iff.1 made
    exact ⟨filled, normalizeMac_normalizeMac mac⟩

/-! ## Reading reports -/

/-- The text spells the report, with nothing but blanks around it. -/
def IsSpelledBy (report : Report) (text : String) : Prop :=
  ∃ before value behind, Blanks before ∧ SpellsReport report value ∧ Blanks behind ∧
    encode text.toList = before ++ (value ++ behind)

/-- A text spells one report at most. -/
theorem IsSpelledBy.unique {report other : Report} {text : String}
    (spelled : IsSpelledBy report text) (spelled' : IsSpelledBy other text) : report = other :=
  Except.ok.inj ((ofText_eq_ok_iff.2 spelled).symm.trans (ofText_eq_ok_iff.2 spelled'))

/-- The versions that a text has, in its order; it may repeat a key, or leave them out. -/
inductive ListsVersions (entries : List (String × String)) : Option (List UInt8) → Prop
  | given {members : List (String × List UInt8)} {text : List UInt8} : IsObject members text →
      List.Forall₂ (fun entry member => entry.1 = member.1 ∧ SpellsString entry.2 member.2)
        entries members → ListsVersions entries (some text)
  | missing : entries = [] → ListsVersions entries none

/-- The address of the boot record and the versions, as a text has them. -/
inductive Writes (mac : String) (entries : List (String × String)) (text : String) : Prop
  | record {before value behind interfaces boot macText uuidText : List UInt8}
      {versions : Option (List UInt8)} : encode text.toList = before ++ (value ++ behind) →
      Blanks before → Blanks behind →
      IsRecord [["interfaces"], ["bootInfo", "boot-info"], ["versions"]]
        [some interfaces, some boot, versions] value →
      IsRecord [["mac"], ["uuid"]] [some macText, some uuidText] boot →
      SpellsString mac macText → ListsVersions entries versions → Writes mac entries text

/-- An address in normal form, and no blank version but where a later entry has its key. -/
structure AreSound (mac : String) (entries : List (String × String)) : Prop where
  filled : ∀ before entry behind, entries = before ++ entry :: behind →
    (∀ later ∈ behind, later.1 ≠ entry.1) → isBlankVersion entry.2 = false
  normal : normalizeMac mac = mac

theorem exists_listsVersions {versions : Versions} {text : Option (List UInt8)}
    (spelled : SpellsOptionalVersions versions text) :
    ∃ entries, ListsVersions entries text ∧ versions = .ofList entries := by
  cases spelled with
  | missing eq => exact ⟨[], .missing rfl, eq⟩
  | given spelled =>
      cases spelled with
      | members isObject strings last =>
          refine ⟨_, .given isObject strings, Versions.eq_of_get? fun key => ?_⟩
          rw [last, Versions.get?_ofList]

theorem isSound_iff_areSound (interfaces : List Interface) (boot : BootRecord)
    (entries : List (String × String)) :
    IsSound ⟨interfaces, boot, .ofList entries⟩ ↔ AreSound boot.mac entries := by
  constructor
  · rintro ⟨filled, normal⟩
    refine ⟨fun before entry behind eq others => filled entry ?_, normal⟩
    exact Versions.get?_eq_some_iff.1
      (Versions.get?_ofList_eq_some_iff.2 ⟨before, behind, eq, others⟩)
  · rintro ⟨filled, normal⟩
    refine ⟨fun entry mem => ?_, normal⟩
    obtain ⟨before, behind, eq, others⟩ :=
      Versions.get?_ofList_eq_some_iff.1 (Versions.get?_eq_some_iff.2 mem)
    exact filled before entry behind eq others

/-- Every report can be read, sound or not.  One that is read is sound exactly where its text spells
one that can be made, which is where the address that the text has is in normal form and no version
that counts in it is blank. -/
theorem isSound_iff_of_ofText (report : Report) :
    (∃ text, ofText text = .ok report) ∧
      ∀ text, ofText text = .ok report →
        (IsSound report ↔ ∃ interfaces mac uuid versions made,
          Report.of interfaces (BootRecord.of mac uuid) versions = .ok made ∧
            IsSpelledBy made text) ∧
        ∃ mac entries, Writes mac entries text ∧ (IsSound report ↔ AreSound mac entries) := by
  have wire := report.ofText_of_prints report.printed_toJson.compact
  refine ⟨⟨_, wire⟩, fun text read => ?_⟩
  have spelled : IsSpelledBy report text := ofText_eq_ok_iff.1 read
  refine ⟨?_, ?_⟩
  · rw [isSound_iff]
    constructor
    · rintro ⟨interfaces, mac, uuid, versions, made⟩
      exact ⟨interfaces, mac, uuid, versions, report, made, spelled⟩
    · rintro ⟨interfaces, mac, uuid, versions, made, is_made, spelled'⟩
      rw [spelled.unique spelled']
      exact ⟨interfaces, mac, uuid, versions, is_made⟩
  · obtain ⟨before, value, behind, blank, spelled, blank', eq⟩ := spelled
    cases spelled with
    | fields isRecord _ _ boot versions =>
        cases boot with
        | fields isBoot mac _ =>
            obtain ⟨entries, lists, same⟩ := exists_listsVersions versions
            refine ⟨_, entries, .record eq blank blank' isRecord isBoot mac lists, ?_⟩
            rw [← isSound_iff_areSound report.interfaces, ← same]

/-- A blank version, and an address with a dash and capitals, are read as they stand. -/
theorem ofText_of_unsound :
    ∃ report, ofText
        ("\x7b\"interfaces\":[],\"bootInfo\":\x7b\"mac\":\"00-AB\",\"uuid\":\"u\"\x7d," ++
          "\"versions\":\x7b\"etcd\":\" \"\x7d\x7d") = .ok report ∧
      report.versions.get? "etcd" = some " " ∧ isBlankVersion " " = true ∧
      report.boot.mac = "00-AB" ∧ normalizeMac report.boot.mac = "00:ab" ∧ ¬IsSound report := by
  refine ⟨⟨[], ⟨"00-AB", "u"⟩, .ofList [("etcd", " ")]⟩, by decide +kernel, by decide, by decide,
    rfl, by decide, fun sound => ?_⟩
  exact absurd sound.normal (by decide)

end Report

end NodeInventory
