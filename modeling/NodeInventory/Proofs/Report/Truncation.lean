import NodeInventory.Proofs.Json.Truncation
import NodeInventory.Proofs.Report.RoundTrip

/-!
# Reports that break off or go on

The text of a report that has lost its end is refused as cut off, wherever it breaks off, be it
inside a character or inside an escape.  A text that goes on behind the report is the report where
only blanks follow, and malformed otherwise.
-/

namespace NodeInventory

open Json Reader Shape Text

/-! ## Where the parts of a report break off -/

theorem Interface.exhausts_text_field (field : String) (h : field ≠ "netmask") (s : String) :
    (Interface.shape.value field).Exhausts (.value (.string s)) := by
  show (ite (field = "netmask") _ _ : Reader FieldValue).Exhausts _
  rw [if_neg h]
  exact (exhausts_text s).map FieldValue.text

theorem Interface.exhausts_toJson (interface : Interface) :
    Interface.shape.reader.Exhausts (.value interface.toJson) := by
  refine exhausts_record interface.makes_toJson ?_
  intro member mem
  simp only [List.mem_cons, List.not_mem_nil, or_false] at mem
  rcases mem with rfl | rfl | rfl | rfl | rfl
  · exact ⟨"ipv4", by rfl, exhausts_text_field _ (by decide) _⟩
  · exact ⟨"cidrv4", by rfl, exhausts_text_field _ (by decide) _⟩
  · exact ⟨"netmask", by rfl, (exhausts_octet interface.netmask).map FieldValue.octet⟩
  · exact ⟨"name", by rfl, exhausts_text_field _ (by decide) _⟩
  · exact ⟨"mac", by rfl, exhausts_text_field _ (by decide) _⟩

theorem BootRecord.exhausts_toJson (boot : BootRecord) :
    BootRecord.shape.reader.Exhausts (.value boot.toJson) := by
  refine exhausts_record boot.makes_toJson ?_
  intro member mem
  simp only [List.mem_cons, List.not_mem_nil, or_false] at mem
  rcases mem with rfl | rfl
  · exact ⟨"mac", by rfl, exhausts_text boot.mac⟩
  · exact ⟨"uuid", by rfl, exhausts_text boot.uuid⟩

theorem Versions.exhausts_toJson (versions : Versions) :
    (dictionary text).Exhausts (.value versions.toJson) := by
  refine exhausts_dictionary versions.takes_members ?_
  intro member mem
  obtain ⟨entry, -, rfl⟩ := List.mem_map.1 mem
  exact exhausts_text entry.2

namespace Report

theorem exhausts_interfaces (interfaces : List Interface) :
    (Report.shape.value "interfaces").Exhausts
      (.value (.array (interfaces.map Interface.toJson))) := by
  refine (exhausts_list (Interface.takes_items interfaces) ?_).map FieldValue.interfaces
  intro v mem
  obtain ⟨interface, -, rfl⟩ := List.mem_map.1 mem
  exact interface.exhausts_toJson

/-! ## Texts that break off -/

/-- Wherever a spelling of the report's JSON breaks off. -/
theorem ofBytes_of_breaksOff (report : Report) {text start : List UInt8}
    (spelled : Spells (.part (.value report.toJson)) text) (breaks : BreaksOff text start) :
    ofBytes start = .error .truncated := by
  have cut : Report.shape.reader.run start = .error .truncated := by
    refine run_of_breaksOff report.makes_toJson ?_ blanks_nil spelled breaks
    intro member mem
    simp only [List.mem_cons, List.not_mem_nil, or_false] at mem
    rcases mem with rfl | rfl | rfl
    · exact ⟨"interfaces", by rfl, exhausts_interfaces report.interfaces⟩
    · exact ⟨"bootInfo", by rfl, report.boot.exhausts_toJson.map FieldValue.boot⟩
    · exact ⟨"versions", by rfl,
        report.versions.exhausts_toJson.map fun entries => FieldValue.versions (.ofList entries)⟩
  rw [ofBytes, document, cut]

/-! ## Texts that go on -/

/-- What follows a report decides, whatever it starts with. -/
theorem ofBytes_append (report : Report) {text : List UInt8}
    (spelled : Spells (.part (.value report.toJson)) text) (rest : List UInt8) :
    ofBytes (text ++ rest) = if skipBlank rest = [] then .ok report else .error .malformed := by
  have read := run_of_makes report.makes_toJson blanks_nil spelled rest
  rw [List.nil_append] at read
  rw [ofBytes, document, read]

/-- A report ends where its text ends: a start of the text is cut off, and so is no report; only
blanks may follow the text, and whatever else does is malformed. -/
theorem ofBytes_wire_ends (report : Report) :
    let text := Utf8.encode report.wire.toList
    (∀ start, start <+: text → start ≠ text → ofBytes start = .error .truncated) ∧
    ∀ rest : String,
      (ofText (report.wire ++ rest) = .ok report ↔ ∀ c ∈ rest.toList, BlankChar c) ∧
      (ofText (report.wire ++ rest) = .error .malformed ↔ ∃ c ∈ rest.toList, ¬BlankChar c) := by
  intro text
  have spelled : Spells (.part (.value report.toJson)) text := by
    show Spells _ (Utf8.encode (String.ofList report.toJson.compact).toList)
    rw [String.toList_ofList]
    exact report.printed_toJson.compact
  refine ⟨fun start begins proper => ?_, fun rest => ?_⟩
  · exact report.ofBytes_of_breaksOff spelled (breaksOff_iff.2 ⟨begins, proper⟩)
  · have read := report.ofBytes_append spelled (Utf8.encode rest.toList)
    rw [← Utf8.encode_append, ← String.toList_append, ← ofText] at read
    rw [read]
    by_cases blank : ∀ c ∈ rest.toList, BlankChar c
    · rw [if_pos (skipBlank_eq_nil_iff.2 (blanks_encode_iff.2 blank))]
      refine ⟨iff_of_true rfl blank, iff_of_false (fun eq => by cases eq) ?_⟩
      rintro ⟨c, mem, other⟩
      exact other (blank c mem)
    · rw [if_neg fun none => blank (blanks_encode_iff.1 (skipBlank_eq_nil_iff.1 none))]
      refine ⟨iff_of_false (fun eq => by cases eq) blank, iff_of_true rfl ?_⟩
      by_contra none
      exact blank fun c mem => by_contra fun other => none ⟨c, mem, other⟩

end Report

end NodeInventory
