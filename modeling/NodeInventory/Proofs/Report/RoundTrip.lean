import NodeInventory.Proofs.Json.Printing
import NodeInventory.Proofs.Json.Reading
import NodeInventory.Report.Reader
import NodeInventory.Report.Wire

/-!
# Reports read back

Every report is what its text says, in the compact form and in the indented one.
-/

namespace NodeInventory

open Json

/-! ## Versions -/

namespace Versions

theorem place_of_above {key value : String} {entries : List (String × String)}
    (above : ∀ entry ∈ entries, entry.1 < key) :
    place key value entries = entries ++ [(key, value)] := by
  induction entries with
  | nil => rfl
  | cons entry entries ih =>
      have lt := above entry List.mem_cons_self
      have not_lt : ¬key < entry.1 := String.lt_asymm lt
      rw [place, if_neg not_lt, if_pos lt, List.cons_append,
        ih fun later mem => above later (List.mem_cons_of_mem _ mem)]

/-- Entries that are ascending are put one behind the other. -/
theorem entries_foldl_insert (entries : List (String × String)) (versions : Versions)
    (ascending : (versions.entries ++ entries).Pairwise fun a b => a.1 < b.1) :
    (entries.foldl (fun versions entry => versions.insert entry.1 entry.2) versions).entries =
      versions.entries ++ entries := by
  induction entries generalizing versions with
  | nil => rw [List.foldl_nil, List.append_nil]
  | cons entry entries ih =>
      obtain ⟨-, -, across⟩ := List.pairwise_append.1 ascending
      have above : ∀ earlier ∈ versions.entries, earlier.1 < entry.1 :=
        fun earlier mem => across earlier mem entry List.mem_cons_self
      have placed : (versions.insert entry.1 entry.2).entries = versions.entries ++ [entry] :=
        place_of_above above
      rw [List.append_cons, ← placed] at ascending
      rw [List.foldl_cons, ih _ ascending, placed, List.append_assoc, List.singleton_append]

theorem ofList_entries (versions : Versions) : ofList versions.entries = versions :=
  ext (entries_foldl_insert versions.entries empty versions.ascending)

end Versions

/-! ## Printed reports -/

theorem Interface.printed_toJson (interface : Interface) : Printed interface.toJson := by
  refine printed_object ?_
  intro member mem
  simp only [List.mem_cons, List.not_mem_nil, or_false] at mem
  rcases mem with rfl | rfl | rfl | rfl | rfl
  all_goals first | exact printed_string _ | exact printed_octet _

theorem BootRecord.printed_toJson (boot : BootRecord) : Printed boot.toJson := by
  refine printed_object ?_
  intro member mem
  simp only [List.mem_cons, List.not_mem_nil, or_false] at mem
  rcases mem with rfl | rfl <;> exact printed_string _

theorem Versions.printed_toJson (versions : Versions) : Printed versions.toJson := by
  refine printed_object ?_
  intro member mem
  obtain ⟨entry, -, rfl⟩ := List.mem_map.1 mem
  exact printed_string entry.2

theorem Report.printed_toJson (report : Report) : Printed report.toJson := by
  refine printed_object ?_
  intro member mem
  simp only [List.mem_cons, List.not_mem_nil, or_false] at mem
  rcases mem with rfl | rfl | rfl
  · refine printed_array ?_
    intro v mem
    obtain ⟨interface, -, rfl⟩ := List.mem_map.1 mem
    exact interface.printed_toJson
  · exact report.boot.printed_toJson
  · exact report.versions.printed_toJson

/-! ## What is read from them -/

open Reader Shape

theorem Interface.takes_text_field (field : String) (h : field ≠ "netmask") (s : String) :
    (Interface.shape.value field).Takes (.value (.string s)) (.text s) := by
  show (ite (field = "netmask") _ _ : Reader FieldValue).Takes _ _
  rw [if_neg h]
  exact (takes_text s).map FieldValue.text

theorem Interface.makes_toJson (interface : Interface) :
    Interface.shape.Makes interface.toJson interface := by
  have ipv4 := takes_text_field "ipv4" (by decide) interface.ipv4
  have cidr := takes_text_field "cidrv4" (by decide) interface.cidr
  have netmask : (Interface.shape.value "netmask").Takes _ _ :=
    (takes_octet interface.netmask).map FieldValue.octet
  have name := takes_text_field "name" (by decide) interface.name
  have mac := takes_text_field "mac" (by decide) interface.mac
  exact .members
    (.cons (takes_field (by rfl) (by rfl) ipv4)
      (.cons (takes_field (by rfl) (by rfl) cidr)
        (.cons (takes_field (by rfl) (by rfl) netmask)
          (.cons (takes_field (by rfl) (by rfl) name)
            (.cons (takes_field (by rfl) (by rfl) mac) .nil))))) (by rfl)

theorem BootRecord.makes_toJson (boot : BootRecord) :
    BootRecord.shape.Makes boot.toJson boot := by
  have mac : (BootRecord.shape.value "mac").Takes _ _ := takes_text boot.mac
  have uuid : (BootRecord.shape.value "uuid").Takes _ _ := takes_text boot.uuid
  exact .members
    (.cons (takes_field (by rfl) (by rfl) mac)
      (.cons (takes_field (by rfl) (by rfl) uuid) .nil)) (by rfl)

theorem Interface.takes_items (interfaces : List Interface) :
    List.Forall₂ (fun v a => Interface.shape.reader.Takes (.value v) a)
      (interfaces.map Interface.toJson) interfaces := by
  rw [List.forall₂_map_left_iff, List.forall₂_same]
  exact fun interface _ => takes_record interface.makes_toJson

theorem Versions.takes_members (versions : Versions) :
    List.Forall₂ (fun m entry => m.1 = entry.1 ∧ text.Takes (.value m.2) entry.2)
      (versions.entries.map fun entry => (entry.1, .string entry.2)) versions.entries := by
  rw [List.forall₂_map_left_iff, List.forall₂_same]
  intro entry _
  exact ⟨rfl, takes_text entry.2⟩

theorem Versions.takes_toJson (versions : Versions) :
    (dictionary text).Takes (.value versions.toJson) versions.entries :=
  takes_dictionary versions.takes_members

namespace Report

theorem makes_toJson (report : Report) : Report.shape.Makes report.toJson report := by
  have interfaces : (Report.shape.value "interfaces").Takes _ _ :=
    (takes_list (Interface.takes_items report.interfaces)).map FieldValue.interfaces
  have boot : (Report.shape.value "bootInfo").Takes _ _ :=
    (takes_record report.boot.makes_toJson).map FieldValue.boot
  have versions : (Report.shape.value "versions").Takes _ _ :=
    report.versions.takes_toJson.map fun entries => FieldValue.versions (.ofList entries)
  rw [Versions.ofList_entries] at versions
  exact .members
    (.cons (takes_field (by rfl) (by rfl) interfaces)
      (.cons (takes_field (by rfl) (by rfl) boot)
        (.cons (takes_field (by rfl) (by rfl) versions) .nil))) (by rfl)

/-- A text that spells the report's JSON is read as the report. -/
theorem ofText_of_prints (report : Report) {chars : List Char}
    (prints : Prints (.value report.toJson) chars) :
    ofText (String.ofList chars) = .ok report := by
  have read := run_of_makes report.makes_toJson blanks_nil prints []
  rw [List.nil_append, List.append_nil] at read
  rw [ofText, ofBytes, String.toList_ofList, document, read]
  exact if_pos rfl

/-- A report is read back from its text, in the compact form and in the indented one. -/
theorem ofText_wire_and_pretty (report : Report) :
    ofText report.wire = .ok report ∧ ofText report.pretty = .ok report := by
  have printed := report.printed_toJson
  exact ⟨report.ofText_of_prints printed.compact, report.ofText_of_prints (printed.indented 0)⟩

end Report

end NodeInventory
