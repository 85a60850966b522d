import NodeInventory.Proofs.Json.Printing
import NodeInventory.Proofs.Json.Records
import NodeInventory.Proofs.Report.Versions
import NodeInventory.Report.Reader

/-!
# Texts that spell reports

A report has many texts.  Each record in it is an object with its members in any order, others among
them, or an array; the boot record goes by two keys; versions may repeat a key, the last of which
counts, or be left out where there are none.  A text is read as a report exactly where it spells it.
-/

namespace NodeInventory

open Json Text.Utf8

/-! ## Texts -/

inductive SpellsInterface (interface : Interface) : List UInt8 → Prop
  | fields {ipv4 cidr netmask name mac text : List UInt8} :
      IsRecord [["ipv4"], ["cidrv4"], ["netmask"], ["name"], ["mac"]]
        [some ipv4, some cidr, some netmask, some name, some mac] text →
      SpellsString interface.ipv4 ipv4 → SpellsString interface.cidr cidr →
      SpellsOctet interface.netmask netmask → SpellsString interface.name name →
      SpellsString interface.mac mac → SpellsInterface interface text

inductive SpellsBoot (boot : BootRecord) : List UInt8 → Prop
  | fields {mac uuid text : List UInt8} :
      IsRecord [["mac"], ["uuid"]] [some mac, some uuid] text →
      SpellsString boot.mac mac → SpellsString boot.uuid uuid → SpellsBoot boot text

/-- An object of strings; a key leads to the last value that it has there. -/
inductive SpellsVersions (versions : Versions) : List UInt8 → Prop
  | members {entries : List (String × String)} {members : List (String × List UInt8)}
      {text : List UInt8} : IsObject members text →
      List.Forall₂ (fun entry member => entry.1 = member.1 ∧ SpellsString entry.2 member.2)
        entries members →
      (∀ key, versions.get? key = Versions.lastValue? entries key) → SpellsVersions versions text

/-- Versions that are there, or none that are left out. -/
inductive SpellsOptionalVersions (versions : Versions) : Option (List UInt8) → Prop
  | given {text : List UInt8} : SpellsVersions versions text →
      SpellsOptionalVersions versions (some text)
  | missing : versions = Versions.empty → SpellsOptionalVersions versions none

/-- The boot record goes by either of its keys, but is there only once. -/
inductive SpellsReport (report : Report) : List UInt8 → Prop
  | fields {interfaces boot text : List UInt8} {items : List (List UInt8)}
      {versions : Option (List UInt8)} :
      IsRecord [["interfaces"], ["bootInfo", "boot-info"], ["versions"]]
        [some interfaces, some boot, versions] text →
      IsArray items interfaces → List.Forall₂ SpellsInterface report.interfaces items →
      SpellsBoot report.boot boot → SpellsOptionalVersions report.versions versions →
      SpellsReport report text

theorem SpellsInterface.isJson {interface : Interface} {text : List UInt8}
    (h : SpellsInterface interface text) : IsJson text := by
  cases h with
  | fields isRecord ipv4 cidr netmask name mac =>
      refine isRecord.isJson fun value mem => ?_
      simp only [List.mem_cons, Option.some.injEq, List.not_mem_nil, or_false] at mem
      rcases mem with rfl | rfl | rfl | rfl | rfl
      · exact ipv4.isJson
      · exact cidr.isJson
      · exact netmask.isJson
      · exact name.isJson
      · exact mac.isJson

theorem SpellsBoot.isJson {boot : BootRecord} {text : List UInt8} (h : SpellsBoot boot text) :
    IsJson text := by
  cases h with
  | fields isRecord mac uuid =>
      refine isRecord.isJson fun value mem => ?_
      simp only [List.mem_cons, Option.some.injEq, List.not_mem_nil, or_false] at mem
      rcases mem with rfl | rfl
      · exact mac.isJson
      · exact uuid.isJson

theorem SpellsVersions.isJson {versions : Versions} {text : List UInt8}
    (h : SpellsVersions versions text) : IsJson text := by
  cases h with
  | members isObject strings _ =>
      refine isObject.isJson fun member mem => ?_
      obtain ⟨entry, -, -, spelled⟩ := exists_of_forall₂ strings mem
      exact spelled.isJson

theorem isJson_of_interfaces {interfaces : List Interface} {items : List (List UInt8)}
    {text : List UInt8} (isArray : IsArray items text)
    (spelled : List.Forall₂ SpellsInterface interfaces items) : IsJson text :=
  .array isArray fun _ mem => by
    obtain ⟨_, -, spelled⟩ := exists_of_forall₂ spelled mem
    exact spelled.isJson

theorem SpellsReport.isJson {report : Report} {text : List UInt8} (h : SpellsReport report text) :
    IsJson text := by
  cases h with
  | fields isRecord isArray interfaces boot versions =>
      refine isRecord.isJson fun value mem => ?_
      simp only [List.mem_cons, Option.some.injEq, List.not_mem_nil, or_false] at mem
      rcases mem with rfl | rfl | rfl
      · exact isJson_of_interfaces isArray interfaces
      · exact boot.isJson
      · cases versions with
        | given versions => exact versions.isJson

/-! ## Reading them -/

/-- A key that is no alias names the field of this name. -/
theorem field?_eq_some_of_not_aliased {ν α : Type} {shape : Shape ν α} {field name : String}
    (not_aliased : shape.aliases.lookup name = none) (isField : field ∈ shape.names) :
    shape.field? name = some field ↔ name = field := by
  rw [Shape.field?, not_aliased, Option.getD_none]
  constructor
  · intro h
    split at h <;> cases h
    rfl
  · rintro rfl
    exact if_pos isField

namespace Interface

/-- The texts of a field's value. -/
inductive FieldValue.Spells : String → FieldValue → List UInt8 → Prop
  | text {field s : String} {text : List UInt8} : field ≠ "netmask" → SpellsString s text →
      FieldValue.Spells field (.text s) text
  | octet {n : UInt8} {text : List UInt8} : SpellsOctet n text →
      FieldValue.Spells "netmask" (.octet n) text

theorem reads_field (field : String) : (shape.value field).Reads (FieldValue.Spells field) := by
  show (ite (field = "netmask") _ _ : Reader FieldValue).Reads _
  split
  next netmask =>
    subst netmask
    refine (Reader.reads_octet.map FieldValue.octet).congr fun v text => ⟨?_, ?_⟩
    · rintro ⟨n, rfl, spelled⟩
      exact .octet spelled
    · intro h
      cases h with
      | text other _ => exact absurd rfl other
      | octet spelled => exact ⟨_, rfl, spelled⟩
  next other =>
    refine (Reader.reads_text.map FieldValue.text).congr fun v text => ⟨?_, ?_⟩
    · rintro ⟨s, rfl, spelled⟩
      exact .text other spelled
    · intro h
      cases h with
      | text _ spelled => exact ⟨_, rfl, spelled⟩
      | octet _ => exact absurd rfl other

theorem spelled : shape.Spelled (fun field => [field]) FieldValue.Spells where
  nodup := by decide
  field?_eq_some isField :=
    (field?_eq_some_of_not_aliased rfl isField).trans List.mem_singleton.symm
  reads field _ := reads_field field
  isJson h := by
    cases h with
    | text _ spelled => exact spelled.isJson
    | octet spelled => exact spelled.isJson
  build_congr agree := by
    have ipv4 := agree "ipv4" (by decide)
    have cidr := agree "cidrv4" (by decide)
    have netmask := agree "netmask" (by decide)
    have name := agree "name" (by decide)
    have mac := agree "mac" (by decide)
    simp only [shape, ipv4, cidr, netmask, name, mac]

theorem exists_spellsString {field : String} {found : Option FieldValue}
    {value : Option (List UInt8)} (rel : Option.Rel (FieldValue.Spells field) found value)
    {v : FieldValue} (is_some : found = some v) {s : String} (text : v.text? = some s) :
    ∃ t, value = some t ∧ SpellsString s t := by
  subst is_some
  cases rel with
  | some spelled =>
      cases spelled <;> cases text
      exact ⟨_, rfl, ‹_›⟩

theorem exists_spellsOctet {field : String} {found : Option FieldValue}
    {value : Option (List UInt8)} (rel : Option.Rel (FieldValue.Spells field) found value)
    {v : FieldValue} (is_some : found = some v) {n : UInt8} (octet : v.octet? = some n) :
    ∃ t, value = some t ∧ SpellsOctet n t := by
  subst is_some
  cases rel with
  | some spelled =>
      cases spelled <;> cases octet
      exact ⟨_, rfl, ‹_›⟩

theorem presents_iff {interface : Interface} {text : List UInt8} :
    shape.Presents (fun field => [field]) FieldValue.Spells interface text ↔
      SpellsInterface interface text := by
  constructor
  · rintro ⟨fields, values, built, all, isRecord⟩
    simp only [shape, Option.bind_eq_bind, Option.bind_eq_some_iff] at built
    obtain ⟨_, found_ipv4, _, is_ipv4, _, found_cidr, _, is_cidr, _, found_netmask, _, is_netmask,
      _, found_name, _, is_name, _, found_mac, _, is_mac, built⟩ := built
    cases built
    simp only [shape, List.forall₂_cons_left_iff, List.forall₂_nil_left_iff] at all
    obtain ⟨_, _, at_ipv4, ⟨_, _, at_cidr, ⟨_, _, at_netmask, ⟨_, _, at_name, ⟨_, _, at_mac, rfl,
      rfl⟩, rfl⟩, rfl⟩, rfl⟩, rfl⟩ := all
    obtain ⟨_, rfl, ipv4⟩ := exists_spellsString at_ipv4 found_ipv4 is_ipv4
    obtain ⟨_, rfl, cidr⟩ := exists_spellsString at_cidr found_cidr is_cidr
    obtain ⟨_, rfl, netmask⟩ := exists_spellsOctet at_netmask found_netmask is_netmask
    obtain ⟨_, rfl, name⟩ := exists_spellsString at_name found_name is_name
    obtain ⟨_, rfl, mac⟩ := exists_spellsString at_mac found_mac is_mac
    exact .fields isRecord ipv4 cidr netmask name mac
  · rintro ⟨isRecord, ipv4, cidr, netmask, name, mac⟩
    refine ⟨[("ipv4", .text interface.ipv4), ("cidrv4", .text interface.cidr),
      ("netmask", .octet interface.netmask), ("name", .text interface.name),
      ("mac", .text interface.mac)], _, rfl, ?_, isRecord⟩
    exact .cons (.some (.text (by decide) ipv4)) (.cons (.some (.text (by decide) cidr))
      (.cons (.some (.octet netmask)) (.cons (.some (.text (by decide) name))
        (.cons (.some (.text (by decide) mac)) .nil))))

theorem reads : shape.reader.Reads SpellsInterface :=
  (Shape.reads spelled).congr fun _ _ => presents_iff

end Interface

namespace BootRecord

theorem spelled : shape.Spelled (fun field => [field]) (fun _ => SpellsString) where
  nodup := by decide
  field?_eq_some isField :=
    (field?_eq_some_of_not_aliased rfl isField).trans List.mem_singleton.symm
  reads _ _ := Reader.reads_text
  isJson h := h.isJson
  build_congr agree := by
    have mac := agree "mac" (by decide)
    have uuid := agree "uuid" (by decide)
    simp only [shape, mac, uuid]

theorem presents_iff {boot : BootRecord} {text : List UInt8} :
    shape.Presents (fun field => [field]) (fun _ => SpellsString) boot text ↔
      SpellsBoot boot text := by
  constructor
  · rintro ⟨fields, values, built, all, isRecord⟩
    simp only [shape, Option.bind_eq_bind, Option.bind_eq_some_iff] at built
    obtain ⟨_, found_mac, _, found_uuid, built⟩ := built
    cases built
    simp only [shape, List.forall₂_cons_left_iff, List.forall₂_nil_left_iff] at all
    obtain ⟨_, _, at_mac, ⟨_, _, at_uuid, rfl, rfl⟩, rfl⟩ := all
    rw [found_mac] at at_mac
    rw [found_uuid] at at_uuid
    cases at_mac with
    | some mac =>
        cases at_uuid with
        | some uuid => exact .fields isRecord mac uuid
  · rintro ⟨isRecord, mac, uuid⟩
    exact ⟨[("mac", boot.mac), ("uuid", boot.uuid)], _, rfl,
      .cons (.some mac) (.cons (.some uuid) .nil), isRecord⟩

theorem reads : shape.reader.Reads SpellsBoot :=
  (Shape.reads spelled).congr fun _ _ => presents_iff

end BootRecord

theorem spellsVersions_iff {versions : Versions} {text : List UInt8} :
    SpellsVersions versions text ↔ ∃ entries, Versions.ofList entries = versions ∧
      ∃ members, IsObject members text ∧
        List.Forall₂ (fun entry member => entry.1 = member.1 ∧ SpellsString entry.2 member.2)
          entries members := by
  constructor
  · rintro ⟨isObject, strings, last⟩
    refine ⟨_, Versions.eq_of_get? fun key => ?_, _, isObject, strings⟩
    rw [Versions.get?_ofList, last]
  · rintro ⟨entries, rfl, members, isObject, strings⟩
    exact .members isObject strings fun key => Versions.get?_ofList entries key

namespace Report

/-- The keys of a field: its name, or the other name of the boot record. -/
def keys (field : String) : List String :=
  if field = "bootInfo" then ["bootInfo", "boot-info"] else [field]

/-- The texts of a field's value. -/
def FieldValue.Spells (field : String) (value : FieldValue) (text : List UInt8) : Prop :=
  match value with
  | .interfaces found => field = "interfaces" ∧
      ∃ items, IsArray items text ∧ List.Forall₂ SpellsInterface found items
  | .boot found => field = "bootInfo" ∧ SpellsBoot found text
  | .versions found => field = "versions" ∧ SpellsVersions found text

theorem field?_eq_some_iff {field name : String} (isField : field ∈ shape.names) :
    shape.field? name = some field ↔ name ∈ keys field := by
  have not_boot_info : field ≠ "boot-info" := by
    rintro rfl
    exact absurd isField (by decide)
  by_cases other : name = "boot-info"
  · have known : shape.field? "boot-info" = some "bootInfo" := rfl
    rw [other, known, Option.some.injEq, keys]
    split
    next boot => simp [boot]
    next no_boot => simp [Ne.symm no_boot, not_boot_info.symm]
  · have not_aliased : shape.aliases.lookup name = none := by
      rw [shape, List.lookup_cons, beq_false_of_ne other]
      rfl
    have itself : name ∈ keys field ↔ name = field := by
      rw [keys]
      split
      next boot => simp [boot, other]
      next => exact List.mem_singleton
    rw [itself]
    exact field?_eq_some_of_not_aliased not_aliased isField

theorem reads_field {field : String} (isField : field ∈ shape.names) :
    (shape.value field).Reads (FieldValue.Spells field) := by
  simp only [shape, List.mem_cons, List.not_mem_nil, or_false] at isField
  rcases isField with rfl | rfl | rfl
  · refine (Interface.reads.list.map FieldValue.interfaces).congr fun v text => ⟨?_, ?_⟩
    · rintro ⟨interfaces, rfl, spelled⟩
      exact ⟨rfl, spelled⟩
    · intro h
      cases v with
      | interfaces => exact ⟨_, rfl, h.2⟩
      | _ => exact absurd h.1 (by decide)
  · refine (BootRecord.reads.map FieldValue.boot).congr fun v text => ⟨?_, ?_⟩
    · rintro ⟨boot, rfl, spelled⟩
      exact ⟨rfl, spelled⟩
    · intro h
      cases v with
      | boot => exact ⟨_, rfl, h.2⟩
      | _ => exact absurd h.1 (by decide)
  · refine (Reader.reads_text.dictionary.map
      fun entries => FieldValue.versions (.ofList entries)).congr fun v text => ⟨?_, ?_⟩
    · rintro ⟨entries, rfl, spelled⟩
      exact ⟨rfl, spellsVersions_iff.2 ⟨entries, rfl, spelled⟩⟩
    · intro h
      cases v with
      | versions =>
          obtain ⟨entries, rfl, spelled⟩ := spellsVersions_iff.1 h.2
          exact ⟨entries, rfl, spelled⟩
      | _ => exact absurd h.1 (by decide)

theorem spelled : shape.Spelled keys FieldValue.Spells where
  nodup := by decide
  field?_eq_some := field?_eq_some_iff
  reads _ := reads_field
  isJson {_ v _} h := by
    cases v with
    | interfaces =>
        obtain ⟨-, items, isArray, interfaces⟩ := h
        exact isJson_of_interfaces isArray interfaces
    | boot => exact h.2.isJson
    | versions => exact h.2.isJson
  build_congr agree := by
    have interfaces := agree "interfaces" (by decide)
    have boot := agree "bootInfo" (by decide)
    have versions := agree "versions" (by decide)
    simp only [shape, interfaces, boot, versions]

theorem eq_of_interfaces? {v : FieldValue} {found : List Interface}
    (h : v.interfaces? = some found) : v = .interfaces found := by
  cases v <;> cases h
  rfl

theorem eq_of_boot? {v : FieldValue} {found : BootRecord} (h : v.boot? = some found) :
    v = .boot found := by
  cases v <;> cases h
  rfl

theorem spellsOptionalVersions_of_rel {found : Option FieldValue} {value : Option (List UInt8)}
    (rel : Option.Rel (FieldValue.Spells "versions") found value) :
    SpellsOptionalVersions ((found.bind (·.versions?)).getD Versions.empty) value := by
  cases rel with
  | none => exact .missing rfl
  | @some v _ spelled =>
      cases v with
      | versions => exact .given spelled.2
      | _ => exact absurd spelled.1 (by decide)

theorem presents_iff {report : Report} {text : List UInt8} :
    shape.Presents keys FieldValue.Spells report text ↔ SpellsReport report text := by
  constructor
  · rintro ⟨fields, values, built, all, isRecord⟩
    simp only [shape, Option.bind_eq_bind, Option.bind_eq_some_iff] at built
    obtain ⟨_, found_interfaces, _, is_interfaces, _, found_boot, _, is_boot, built⟩ := built
    cases built
    simp only [shape, List.forall₂_cons_left_iff, List.forall₂_nil_left_iff] at all
    obtain ⟨_, _, at_interfaces, ⟨_, _, at_boot, ⟨_, _, at_versions, rfl, rfl⟩, rfl⟩, rfl⟩ := all
    rw [found_interfaces] at at_interfaces
    rw [found_boot] at at_boot
    have versions := spellsOptionalVersions_of_rel at_versions
    cases at_interfaces with
    | some interfaces =>
    cases at_boot with
    | some boot =>
      cases eq_of_interfaces? is_interfaces
      cases eq_of_boot? is_boot
      obtain ⟨-, items, isArray, interfaces⟩ := interfaces
      exact .fields isRecord isArray interfaces boot.2 versions
  · rintro ⟨isRecord, isArray, interfaces, boot, versions⟩
    cases versions with
    | given versions =>
        exact ⟨[("interfaces", .interfaces report.interfaces), ("bootInfo", .boot report.boot),
          ("versions", .versions report.versions)], _, rfl,
          .cons (.some ⟨rfl, _, isArray, interfaces⟩) (.cons (.some ⟨rfl, boot⟩)
            (.cons (.some ⟨rfl, versions⟩) .nil)), isRecord⟩
    | missing none =>
        have built : shape.build [("interfaces", .interfaces report.interfaces),
            ("bootInfo", .boot report.boot)] = some report := by
          show some (⟨report.interfaces, report.boot, Versions.empty⟩ : Report) = some report
          rw [← none]
        exact ⟨_, _, built, .cons (.some ⟨rfl, _, isArray, interfaces⟩)
          (.cons (.some ⟨rfl, boot⟩) (.cons .none .nil)), isRecord⟩

theorem reads : shape.reader.Reads SpellsReport :=
  (Shape.reads spelled).congr fun _ _ => presents_iff

/-- A text is read as a report exactly where it spells the report, with blanks around it. -/
theorem ofText_eq_ok_iff {text : String} {report : Report} :
    ofText text = .ok report ↔ ∃ before value behind, Blanks before ∧ SpellsReport report value ∧
      Blanks behind ∧ encode text.toList = before ++ (value ++ behind) :=
  document_eq_ok_iff reads

/-- Every text that spells a report is read as this report. -/
theorem ofText_of_spells {report : Report} {text : String} {before value behind : List UInt8}
    (blank : Blanks before) (spelled : SpellsReport report value) (blank' : Blanks behind)
    (eq : encode text.toList = before ++ (value ++ behind)) : ofText text = .ok report :=
  ofText_eq_ok_iff.2 ⟨before, value, behind, blank, spelled, blank', eq⟩

/-- Members in another order and one that no report has, an array for an interface, the other key of
the boot record, an escape, and versions with a repeated key. -/
theorem ofText_of_spells_reordered :
    ofText (" \x7b\"x\":[null],\"versions\":\x7b\"v\":\"m\",\"v\":\"u\"\x7d," ++
        "\"boot-info\":[\"m\",\"\\u0075\"],\"interfaces\":[[\"a\",\"b\",8,\"e\",\"m\"]]\x7d") =
      .ok ⟨[⟨"a", "b", 8, "e", "m"⟩], ⟨"m", "u"⟩, .ofList [("v", "u")]⟩ := by
  have named {name : String} {value : List UInt8} := @IsMember.parts (SpellsString name) value _ _ _
    (spellsString_quote name) blanks_nil blanks_nil
  have null : IsArray [encode "null".toList] _ := .brackets (.first blanks_nil (.close blanks_nil))
  have unknown : IsJson (encode "[null]".toList) :=
    .array null (List.forall_mem_singleton.2 (.scalar .null))
  have repeated : IsObject [("v", encode (quote "m".toList)), ("v", encode (quote "u".toList))] _ :=
    .brackets (.first blanks_nil (.next blanks_nil blanks_nil (.close blanks_nil)))
      (.cons named (.cons named .nil))
  have versions : SpellsVersions (.ofList [("v", "u")])
      (encode "\x7b\"v\":\"m\",\"v\":\"u\"\x7d".toList) :=
    .members repeated
      (.cons ⟨rfl, spellsString_quote "m"⟩ (.cons ⟨rfl, spellsString_quote "u"⟩ .nil))
      (Versions.get?_ofList [("v", "m"), ("v", "u")])
  have escaped : SpellsString "u" (encode "\"\\u0075\"".toList) :=
    .quoted (s := "u") (.cons (@SpellsChar.unit 'u' [0x30, 0x30, 0x37, 0x35] rfl rfl) .nil)
  have boot_items : IsArray [encode (quote "m".toList), encode "\"\\u0075\"".toList] _ :=
    .brackets (.first blanks_nil (.next blanks_nil blanks_nil (.close blanks_nil)))
  have boot : SpellsBoot ⟨"m", "u"⟩ (encode "[\"m\",\"\\u0075\"]".toList) :=
    .fields (@IsRecord.array _ _ _ 0 _ boot_items rfl rfl) (spellsString_quote "m") escaped
  have items : IsArray [encode (quote "a".toList), encode (quote "b".toList), [0x38],
      encode (quote "e".toList), encode (quote "m".toList)] _ :=
    .brackets (.first blanks_nil (.next blanks_nil blanks_nil (.next blanks_nil blanks_nil
      (.next blanks_nil blanks_nil (.next blanks_nil blanks_nil (.close blanks_nil))))))
  have octet : SpellsOctet 8 [0x38] :=
    ⟨⟨by decide, List.forall_mem_singleton.2 rfl⟩, by decide, rfl⟩
  have interface : SpellsInterface ⟨"a", "b", 8, "e", "m"⟩
      (encode "[\"a\",\"b\",8,\"e\",\"m\"]".toList) :=
    .fields (@IsRecord.array _ _ _ 0 _ items rfl rfl) (spellsString_quote "a")
      (spellsString_quote "b") octet (spellsString_quote "e") (spellsString_quote "m")
  have interfaces : IsArray [encode "[\"a\",\"b\",8,\"e\",\"m\"]".toList] _ :=
    .brackets (.first blanks_nil (.close blanks_nil))
  have object : IsObject [("x", encode "[null]".toList),
      ("versions", encode "\x7b\"v\":\"m\",\"v\":\"u\"\x7d".toList),
      ("boot-info", encode "[\"m\",\"\\u0075\"]".toList),
      ("interfaces", encode "[[\"a\",\"b\",8,\"e\",\"m\"]]".toList)] _ :=
    .brackets (.first blanks_nil (.next blanks_nil blanks_nil (.next blanks_nil blanks_nil
        (.next blanks_nil blanks_nil (.close blanks_nil)))))
      (.cons named (.cons named (.cons named (.cons named .nil))))
  have all : List.Forall₂ SpellsInterface [⟨"a", "b", 8, "e", "m"⟩] _ := .cons interface .nil
  have json := List.forall_mem_cons.2 ⟨unknown, List.forall_mem_cons.2 ⟨versions.isJson,
    List.forall_mem_cons.2 ⟨boot.isJson,
      List.forall_mem_singleton.2 (isJson_of_interfaces interfaces all)⟩⟩⟩
  have report : SpellsReport ⟨[⟨"a", "b", 8, "e", "m"⟩], ⟨"m", "u"⟩, .ofList [("v", "u")]⟩ _ :=
    .fields (.object object (List.forall_mem_map.1 json)
      (.cons rfl (.cons rfl (.cons rfl .nil)))) interfaces all boot (.given versions)
  have space : Blanks [0x20] := List.forall_mem_singleton.2 rfl
  exact ofText_of_spells space report blanks_nil (by decide +kernel)

/-- A text that is read as a report is a JSON value that spells this report, with nothing but blanks
around it. -/
theorem spells_of_ofText {report : Report} {text : String} (accepted : ofText text = .ok report) :
    ∃ before value behind, Blanks before ∧ Blanks behind ∧
      encode text.toList = before ++ (value ++ behind) ∧ IsJson value ∧
        SpellsReport report value := by
  obtain ⟨before, value, behind, blank, spelled, blank', eq⟩ := ofText_eq_ok_iff.1 accepted
  exact ⟨before, value, behind, blank, blank', eq, spelled.isJson, spelled⟩

theorem spells_of_ofText_positional :
    ∃ before value behind, Blanks before ∧ Blanks behind ∧
      encode "[[[\"a\",\"b\",8,\"e\",\"m\"]],[\"m\",\"u\"]] ".toList = before ++ (value ++ behind) ∧
        IsJson value ∧
          SpellsReport ⟨[⟨"a", "b", 8, "e", "m"⟩], ⟨"m", "u"⟩, Versions.empty⟩ value :=
  spells_of_ofText (by decide +kernel)

/-- Both keys of the boot record in one object. -/
example : ofText ("\x7b\"interfaces\":[],\"bootInfo\":[\"m\",\"u\"]," ++
    "\"boot-info\":[\"m\",\"u\"]\x7d") = .error .mismatch := by
  decide +kernel

end Report

end NodeInventory
