import NodeInventory.Proofs.Probe.Boot

/-!
# The identity of a node by the source of its identifier

A parameter is taken as it is written, and the product's identifier in lower case.  A node that is
once told its identifier by the kernel command line and once by its firmware is the same node only
where that identifier has no capitals.
-/

namespace NodeInventory.Probe

open Text BootFiles

/-! ## Words that do not matter -/

theorem BootParameters.lastValue?_append_cons {key word : List Char} (before : List (List Char))
    (unread : valueOf? key word = none) (behind : List (List Char)) :
    lastValue? (before ++ word :: behind) key = lastValue? (before ++ behind) key := by
  rw [lastValue?, lastValue?, List.filterMap_append, List.filterMap_cons_none unread,
    ← List.filterMap_append]

section Sources

variable {named plain : BootFiles} {uuid : List Char} {before behind : List (List Char)}

/-- The parameter of the identifier says nothing about the hardware address. -/
theorem mac_parameter_eq
    (given : named.arguments = before ++ ("uuid".toList ++ '=' :: uuid) :: behind)
    (missing : plain.arguments = before ++ behind) (filled : uuid ≠ []) :
    named.parameters.mac = plain.parameters.mac := by
  have unread := BootParameters.valueOf?_mac_of_uuid
    (BootParameters.valueOf?_eq_some_iff.2 ⟨rfl, filled⟩)
  have same := BootParameters.lastValue?_append_cons before unread behind
  rw [← given, ← missing] at same
  rw [← gives_mac_iff, BootParameters.gives_iff, same, ← BootParameters.gives_iff, gives_mac_iff]

theorem gives_of_alone
    (given : named.arguments = before ++ ("uuid".toList ++ '=' :: uuid) :: behind)
    (alone : Gives (before ++ behind) "uuid".toList none) (filled : uuid ≠ []) :
    Gives named.arguments "uuid".toList (some uuid) := by
  cases alone with
  | nothing absent =>
      exact .last given filled fun later filled mem =>
        absent later filled (List.mem_append_right before mem)

end Sources

/-! ## Two probes of one node -/

/-- The product's identifier makes the identity that the parameter makes, but in lower case.  So the
two are one where the identifier has no capitals, or where there is neither. -/
theorem identity_of_source (named plain : BootFiles) (listing : Listing) (uuid : List Char)
    (before behind : List (List Char)) (filled : uuid ≠ [])
    (given : named.arguments = before ++ ("uuid".toList ++ '=' :: uuid) :: behind)
    (missing : plain.arguments = before ++ behind)
    (alone : Gives (before ++ behind) "uuid".toList none)
    (product : (plain.product.bind Utf8.decode?).map trim = some uuid) :
    (ofSystem listing plain).boot = (ofSystem listing named).boot.map
        (fun boot => { boot with uuid := String.ofList (lower boot.uuid.toList) }) ∧
      ((ofSystem listing plain).boot.map BootRecord.identity =
          (ofSystem listing named).boot.map BootRecord.identity ↔
        (∀ c ∈ uuid, c.isUpper = false) ∨
          ∃ error, (ofSystem listing named).boot = .error error) := by
  have named_uuid : named.uuid = .ok (String.ofList uuid) :=
    uuid_of_identifies (.parameter (gives_of_alone given alone filled))
  have plain_uuid : plain.uuid = .ok (String.ofList (lower uuid)) := by
    obtain ⟨text, read, rfl⟩ := Option.map_eq_some_iff.1 product
    exact uuid_of_identifies (.product (missing ▸ alone) read (mt trim_eq_nil_iff.2 filled))
  have same_mac : named.mac listing = plain.mac listing := by
    rw [BootFiles.mac, BootFiles.mac, mac_parameter_eq given missing filled]
  show plain.boot listing = (named.boot listing).map _ ∧
    ((plain.boot listing).map _ = (named.boot listing).map _ ↔
      _ ∨ ∃ error, named.boot listing = .error error)
  rw [BootFiles.boot, BootFiles.boot, named_uuid, plain_uuid, same_mac]
  cases plain.mac listing with
  | error error => exact ⟨rfl, fun _ => .inr ⟨error, rfl⟩, fun _ => rfl⟩
  | ok mac =>
      refine ⟨?_, fun same => .inl ?_, ?_⟩
      · simp [Except.map, BootRecord.of]
      · have : String.ofList (lower uuid) = String.ofList uuid :=
          congrArg Identity.uuid (Except.ok.inj same)
        exact lower_eq_self_iff.1 (String.ofList_injective this)
      · rintro (small | ⟨error, none⟩)
        · rw [lower_eq_self_iff.2 small]
        · cases none

theorem identity_of_source_in_lower_case :
    let named : BootFiles := ⟨some (Utf8.encode "quiet uuid=4c-1 mac=00-AB\n".toList), none⟩
    let plain : BootFiles := ⟨some (Utf8.encode "quiet mac=00-AB\n".toList),
      some (Utf8.encode "4c-1\n".toList)⟩
    "4c-1".toList ≠ [] ∧
      named.arguments =
        ["quiet".toList] ++ ("uuid".toList ++ '=' :: "4c-1".toList) :: ["mac=00-AB".toList] ∧
      plain.arguments = ["quiet".toList] ++ ["mac=00-AB".toList] ∧
      Gives (["quiet".toList] ++ ["mac=00-AB".toList]) "uuid".toList none ∧
      (plain.product.bind Utf8.decode?).map trim = some "4c-1".toList ∧
      (ofSystem (.ok []) plain).boot = (ofSystem (.ok []) named).boot.map
        (fun boot => { boot with uuid := String.ofList (lower boot.uuid.toList) }) ∧
      ((ofSystem (.ok []) plain).boot.map BootRecord.identity =
          (ofSystem (.ok []) named).boot.map BootRecord.identity ↔
        (∀ c ∈ "4c-1".toList, c.isUpper = false) ∨
          ∃ error, (ofSystem (.ok []) named).boot = .error error) := by
  intro named plain
  have filled : "4c-1".toList ≠ [] := by decide
  have given : named.arguments =
      ["quiet".toList] ++ ("uuid".toList ++ '=' :: "4c-1".toList) :: ["mac=00-AB".toList] := by
    decide +kernel
  have missing : plain.arguments = ["quiet".toList] ++ ["mac=00-AB".toList] := by decide +kernel
  have alone : Gives (["quiet".toList] ++ ["mac=00-AB".toList]) "uuid".toList none :=
    BootParameters.gives_iff.2 (by decide)
  have product : (plain.product.bind Utf8.decode?).map trim = some "4c-1".toList := by
    decide +kernel
  exact ⟨filled, given, missing, alone, product,
    identity_of_source named plain (.ok []) "4c-1".toList ["quiet".toList] ["mac=00-AB".toList]
      filled given missing alone product⟩

/-- One identifier with capitals, from the command line and from the firmware, makes two nodes. -/
theorem identity_of_capitals_differs :
    let named : BootFiles := ⟨some (Utf8.encode "uuid=4C4C4544 mac=00-AB".toList), none⟩
    let plain : BootFiles := ⟨some (Utf8.encode "mac=00-AB".toList),
      some (Utf8.encode "4C4C4544".toList)⟩
    named.arguments =
        [] ++ ("uuid".toList ++ '=' :: "4C4C4544".toList) :: ["mac=00-AB".toList] ∧
      plain.arguments = [] ++ ["mac=00-AB".toList] ∧
      plain.product.bind Utf8.decode? = some "4C4C4544".toList ∧
      (ofSystem (.ok []) named).boot.map BootRecord.identity = .ok ⟨"00:ab", "4C4C4544"⟩ ∧
      (ofSystem (.ok []) plain).boot.map BootRecord.identity = .ok ⟨"00:ab", "4c4c4544"⟩ := by
  decide +kernel

end NodeInventory.Probe
