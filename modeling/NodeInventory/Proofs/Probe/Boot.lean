import NodeInventory.Proofs.Node.HardwareAddress
import NodeInventory.Proofs.Probe.Addresses
import NodeInventory.Proofs.Probe.Parameters

/-!
# How a boot record is resolved

`Resolves` says where a probe has the two parts of its boot record from, and why there is none where
that fails; the probe follows it exactly.  Both writers of hardware addresses, that of the entries
and that of normal forms, agree, so that an address taken from an interface is still the one that
the interface shows.
-/

namespace NodeInventory.Probe

open Text

/-! ## Hardware addresses of entries -/

theorem hexDigit_plain {n : Nat} (lt : n < 16) :
    isBlank (Nat.digitChar n) = false ∧ Nat.digitChar n ≠ '-' ∧
      (Nat.digitChar n).isUpper = false := by
  revert n
  decide

theorem plain_of_mem_hardwareText {bytes : List UInt8} {c : Char}
    (mem : c ∈ (hardwareText bytes).toList) :
    isBlank c = false ∧ c ≠ '-' ∧ c.isUpper = false := by
  rw [hardwareText, String.toList_intercalate] at mem
  rcases mem_of_mem_intercalate mem with joint | ⟨piece, among, mem⟩
  · cases List.mem_singleton.1 joint
    decide
  · rw [List.map_map] at among
    obtain ⟨byte, -, rfl⟩ := List.mem_map.1 among
    rw [Function.comp_apply, String.toList_ofList] at mem
    have bound := byte.toNat_lt
    rcases List.mem_cons.1 mem with rfl | mem
    · exact hexDigit_plain (by omega)
    · cases List.mem_singleton.1 mem
      exact hexDigit_plain (by omega)

theorem isNormalMac_hardwareText (bytes : List UInt8) : IsNormalMac (hardwareText bytes) where
  trimmed := strip_eq_self_of_refused fun _ mem => (plain_of_mem_hardwareText mem).1
  no_dash mem := (plain_of_mem_hardwareText mem).2.1 rfl
  no_capital _ mem := (plain_of_mem_hardwareText mem).2.2

/-- Normalising the address of an interface changes nothing. -/
theorem isNormalMac_of_mem_interfaces {listing : Listing} {interfaces : List Interface}
    (listed : listing.interfaces = .ok interfaces) {interface : Interface}
    (mem : interface ∈ interfaces) : IsNormalMac interface.mac := by
  cases listing with
  | error error => cases listed
  | ok entries =>
      cases listed
      rw [interfacesOf_eq_map] at mem
      obtain ⟨⟨name, ip, length⟩, -, rfl⟩ := List.mem_map.1 mem
      change IsNormalMac (((lastHardware? entries name).map hardwareText).getD "")
      cases lastHardware? entries name with
      | none => exact normalizeMac_eq_self_iff.1 rfl
      | some bytes => exact isNormalMac_hardwareText bytes

/-! ## Files -/

theorem readTrimmed_eq_some_iff {file : Option (List UInt8)} {trimmed : List Char} :
    readTrimmed file = some trimmed ↔
      ∃ text, file.bind Utf8.decode? = some text ∧ ¬IsBlankText text ∧ trim text = trimmed := by
  rw [readTrimmed, Option.filter_eq_some_iff, Option.map_eq_some_iff, decide_eq_true_iff]
  constructor
  · rintro ⟨⟨text, read, rfl⟩, filled⟩
    exact ⟨text, read, mt trim_eq_nil_iff.2 filled, rfl⟩
  · rintro ⟨text, read, filled, rfl⟩
    exact ⟨⟨text, read, rfl⟩, mt trim_eq_nil_iff.1 filled⟩

theorem readTrimmed_eq_none_iff {file : Option (List UInt8)} :
    readTrimmed file = none ↔
      ∀ text, file.bind Utf8.decode? = some text → IsBlankText text := by
  rw [Option.eq_none_iff_forall_ne_some]
  constructor
  · intro unread text read
    by_contra filled
    exact unread _ (readTrimmed_eq_some_iff.2 ⟨text, read, filled, rfl⟩)
  · rintro blank trimmed read
    obtain ⟨text, read, filled, -⟩ := readTrimmed_eq_some_iff.1 read
    exact filled (blank text read)

namespace BootFiles

/-- The words of the kernel command line, as far as its file is there and is text. -/
def arguments (files : BootFiles) : List (List Char) :=
  words ((files.commandLine.bind Utf8.decode?).getD [])

theorem words_readTrimmed (file : Option (List UInt8)) :
    words ((readTrimmed file).getD []) = words ((file.bind Utf8.decode?).getD []) := by
  cases read : file.bind Utf8.decode? with
  | none =>
      rw [readTrimmed, read]
      rfl
  | some text =>
      cases trimmed : readTrimmed file with
      | none => exact (words_eq_nil (readTrimmed_eq_none_iff.1 trimmed text read)).symm
      | some kept =>
          obtain ⟨_, again, -, rfl⟩ := readTrimmed_eq_some_iff.1 trimmed
          cases read.symm.trans again
          exact words_trim text

variable {files : BootFiles} {listing : Listing}

theorem gives_uuid_iff {found : Option (List Char)} :
    Gives files.arguments "uuid".toList found ↔ files.parameters.uuid = found := by
  rw [BootParameters.gives_iff, parameters, BootParameters.uuid_parse, words_readTrimmed, arguments]

theorem gives_mac_iff {found : Option (List Char)} :
    Gives files.arguments "mac".toList found ↔ files.parameters.mac = found := by
  rw [BootParameters.gives_iff, parameters, BootParameters.mac_parse, words_readTrimmed, arguments]

/-! ## The identifier -/

/-- What the files say of a node's identifier, if anything. -/
inductive Identifies (files : BootFiles) : Option String → Prop
  | parameter {uuid : List Char} : Gives files.arguments "uuid".toList (some uuid) →
      Identifies files (some (String.ofList uuid))
  | product {text : List Char} : Gives files.arguments "uuid".toList none →
      files.product.bind Utf8.decode? = some text → ¬IsBlankText text →
      Identifies files (some (String.ofList (lower (trim text))))
  | unknown : Gives files.arguments "uuid".toList none →
      (∀ text, files.product.bind Utf8.decode? = some text → IsBlankText text) →
      Identifies files none

theorem uuid_of_identifies {found : Option String} (identifies : Identifies files found) :
    files.uuid =
      found.elim (.error (.bootIdentity "no uuid on cmdline and no DMI uuid")) .ok := by
  cases identifies with
  | parameter given => rw [uuid, gives_uuid_iff.1 given]; rfl
  | product missing read filled =>
      rw [uuid, gives_uuid_iff.1 missing, readTrimmed_eq_some_iff.2 ⟨_, read, filled, rfl⟩]
      rfl
  | unknown missing blank =>
      rw [uuid, gives_uuid_iff.1 missing, readTrimmed_eq_none_iff.2 blank]
      rfl

theorem exists_identifies (files : BootFiles) : ∃ found, Identifies files found := by
  cases given : files.parameters.uuid with
  | some uuid => exact ⟨_, .parameter (gives_uuid_iff.2 given)⟩
  | none =>
      cases read : readTrimmed files.product with
      | some trimmed =>
          obtain ⟨text, read, filled, -⟩ := readTrimmed_eq_some_iff.1 read
          exact ⟨_, .product (gives_uuid_iff.2 given) read filled⟩
      | none => exact ⟨none, .unknown (gives_uuid_iff.2 given) (readTrimmed_eq_none_iff.1 read)⟩

theorem ne_empty_of_identifies {uuid : String} (identifies : Identifies files (some uuid)) :
    uuid ≠ "" := by
  cases identifies with
  | parameter given =>
      cases given with
      | last _ filled _ => exact mt String.ofList_eq_empty_iff.1 filled
  | product _ _ filled =>
      exact mt String.ofList_eq_empty_iff.1 (lower_ne_nil (mt trim_eq_nil_iff.1 filled))

/-! ## The hardware address -/

/-- Where a hardware address is taken from, or why there is none. -/
inductive Addresses (files : BootFiles) (listing : Listing) : Except ProbeError String → Prop
  | parameter {mac : List Char} : Gives files.arguments "mac".toList (some mac) →
      Addresses files listing (.ok (normalizeMac (String.ofList mac)))
  | interface {before behind : List Interface} {interface : Interface} :
      Gives files.arguments "mac".toList none →
      listing.interfaces = .ok (before ++ interface :: behind) → interface.mac ≠ "" →
      (∀ earlier ∈ before, earlier.mac = "") → Addresses files listing (.ok interface.mac)
  | unlisted {error : SystemError} : Gives files.arguments "mac".toList none →
      listing = .error error → Addresses files listing (.error (.interfaces error.message))
  | unknown {interfaces : List Interface} : Gives files.arguments "mac".toList none →
      listing.interfaces = .ok interfaces → (∀ interface ∈ interfaces, interface.mac = "") →
      Addresses files listing (.error (.bootIdentity "no mac on cmdline and no interface mac"))

theorem find?_mac (interfaces : List Interface) :
    (interfaces.map Interface.mac).find? (· ≠ "") =
      (interfaces.find? (·.mac ≠ "")).map Interface.mac :=
  List.find?_map

theorem mac_of_addresses {found : Except ProbeError String}
    (addresses : Addresses files listing found) : (files.mac listing).map normalizeMac = found := by
  cases addresses with
  | parameter given => rw [mac, gives_mac_iff.1 given]; rfl
  | @interface before behind interface missing listed filled empty =>
      have first : (before ++ interface :: behind).find? (·.mac ≠ "") = some interface := by
        refine List.find?_eq_some_iff_append.2 ⟨decide_eq_true filled, before, behind, rfl, ?_⟩
        exact fun earlier mem => by simp [empty earlier mem]
      have normal :=
        isNormalMac_of_mem_interfaces listed (List.mem_append_right _ List.mem_cons_self)
      simp only [mac, gives_mac_iff.1 missing, listed, find?_mac, first, Option.map_some]
      exact congrArg Except.ok (normalizeMac_eq_self_iff.2 normal)
  | unlisted missing listed =>
      subst listed
      rw [mac, gives_mac_iff.1 missing]
      rfl
  | @unknown interfaces missing listed empty =>
      have nowhere : interfaces.find? (·.mac ≠ "") = none :=
        List.find?_eq_none.2 fun interface mem => by simp [empty interface mem]
      simp only [mac, gives_mac_iff.1 missing, listed, find?_mac, nowhere, Option.map_none]
      rfl

theorem exists_addresses (files : BootFiles) (listing : Listing) :
    ∃ found, Addresses files listing found := by
  cases given : files.parameters.mac with
  | some mac => exact ⟨_, .parameter (gives_mac_iff.2 given)⟩
  | none =>
      have missing := gives_mac_iff.2 given
      cases listed : listing with
      | error error => exact ⟨_, .unlisted missing rfl⟩
      | ok entries =>
          cases first : (interfacesOf entries).find? (·.mac ≠ "") with
          | none =>
              have nowhere := List.find?_eq_none.1 first
              exact ⟨_, .unknown missing rfl fun interface mem => by simpa using nowhere _ mem⟩
          | some interface =>
              obtain ⟨filled, before, behind, eq, empty⟩ := List.find?_eq_some_iff_append.1 first
              exact ⟨_, .interface missing (congrArg Except.ok eq) (of_decide_eq_true filled)
                fun earlier mem => by simpa using empty earlier mem⟩

/-- A word of the command line holds no blank, and so does a part of it. -/
theorem solid_of_gives {key value : List Char}
    (given : Gives files.arguments key (some value)) :
    value ≠ [] ∧ ∀ c ∈ value, isBlank c = false := by
  cases given with
  | last eq filled _ =>
      have mem : key ++ '=' :: value ∈ files.arguments := by
        rw [eq]
        exact List.mem_append_right _ List.mem_cons_self
      exact ⟨filled, fun c among => (solid_of_mem_words mem).2 c
        (List.mem_append_right _ (List.mem_cons_of_mem _ among))⟩

theorem normal_of_addresses {mac : String} {found : Except ProbeError String}
    (addresses : Addresses files listing found) (eq : found = .ok mac) :
    mac ≠ "" ∧ IsNormalMac mac := by
  cases addresses with
  | parameter given =>
      obtain ⟨filled, solid⟩ := solid_of_gives given
      obtain rfl := Except.ok.inj eq
      refine ⟨fun empty => ?_, isNormalMac_normalizeMac _⟩
      rw [normalizeMac_eq_empty_iff, String.toList_ofList] at empty
      obtain ⟨c, mem⟩ := List.exists_mem_of_ne_nil _ filled
      exact absurd (empty c mem) (ne_true_of_eq_false (solid c mem))
  | interface _ listed filled _ =>
      obtain rfl := Except.ok.inj eq
      exact ⟨filled, isNormalMac_of_mem_interfaces listed
        (List.mem_append_right _ List.mem_cons_self)⟩
  | unlisted | unknown => cases eq

/-- An address that no parameter gives is that of an interface. -/
theorem interface_of_addresses {mac : String} {found : Except ProbeError String}
    (addresses : Addresses files listing found) (missing : Gives files.arguments "mac".toList none)
    (eq : found = .ok mac) : ∃ interfaces, listing.interfaces = .ok interfaces ∧
      ∃ interface ∈ interfaces, interface.mac = mac := by
  cases addresses with
  | parameter given => cases (gives_mac_iff.1 missing).symm.trans (gives_mac_iff.1 given)
  | interface _ listed =>
      exact ⟨_, listed, _, List.mem_append_right _ List.mem_cons_self, Except.ok.inj eq⟩
  | unlisted | unknown => cases eq

/-! ## The boot record -/

/-- The identifier is settled first; without one nothing else is asked for. -/
inductive Resolves (files : BootFiles) (listing : Listing) : Except ProbeError BootRecord → Prop
  | unidentified : Identifies files none →
      Resolves files listing (.error (.bootIdentity "no uuid on cmdline and no DMI uuid"))
  | unaddressed {uuid : String} {error : ProbeError} : Identifies files (some uuid) →
      Addresses files listing (.error error) → Resolves files listing (.error error)
  | resolved {uuid mac : String} : Identifies files (some uuid) →
      Addresses files listing (.ok mac) → Resolves files listing (.ok ⟨mac, uuid⟩)

theorem boot_of_uuid {uuid : String} (known : files.uuid = .ok uuid) :
    files.boot listing = ((files.mac listing).map normalizeMac).map (⟨·, uuid⟩) := by
  rw [boot, known]
  cases files.mac listing <;> rfl

theorem boot_of_resolves {found : Except ProbeError BootRecord}
    (resolves : Resolves files listing found) : files.boot listing = found := by
  cases resolves with
  | unidentified identifies => rw [boot, uuid_of_identifies identifies]; rfl
  | unaddressed identifies addresses | resolved identifies addresses =>
      rw [boot_of_uuid (uuid_of_identifies identifies), mac_of_addresses addresses]
      rfl

theorem exists_resolves (files : BootFiles) (listing : Listing) :
    ∃ found, Resolves files listing found := by
  obtain ⟨uuid, identifies⟩ := files.exists_identifies
  obtain ⟨mac, addresses⟩ := files.exists_addresses listing
  cases uuid with
  | none => exact ⟨_, .unidentified identifies⟩
  | some uuid =>
      cases mac with
      | error error => exact ⟨_, .unaddressed identifies addresses⟩
      | ok mac => exact ⟨_, .resolved identifies addresses⟩

theorem boot_eq_iff {found : Except ProbeError BootRecord} :
    files.boot listing = found ↔ Resolves files listing found := by
  refine ⟨?_, boot_of_resolves⟩
  rintro rfl
  obtain ⟨found, resolves⟩ := files.exists_resolves listing
  rwa [boot_of_resolves resolves]

end BootFiles

/-! ## The probe -/

open BootFiles

/-- What a probe of these files and this listing has for a boot record, and what that hangs on. -/
structure Resolution (files : BootFiles) (listing : Listing) (probe : Probe) : Prop where
  boot_iff : ∀ found, probe.boot = found ↔ Resolves files listing found
  /-- Beside the parameter the product file makes no difference. -/
  product_unneeded : ∀ uuid, Gives files.arguments "uuid".toList (some uuid) →
    ∀ product, (ofSystem listing ⟨files.commandLine, product⟩).boot = probe.boot
  /-- Without an identifier, or beside the parameter, the listing makes no difference. -/
  listing_unneeded : Identifies files none ∨
      (∃ mac, Gives files.arguments "mac".toList (some mac)) →
    ∀ other, (ofSystem other files).boot = probe.boot
  filled : ∀ boot, probe.boot = .ok boot → boot.uuid ≠ "" ∧ boot.mac ≠ ""
  normal : ∀ boot, probe.boot = .ok boot →
    normalizeMac boot.mac = boot.mac ∧ IsNormalMac boot.mac
  /-- An address that no parameter gives is to the letter that of an interface. -/
  mac_of_interface : ∀ boot, probe.boot = .ok boot → Gives files.arguments "mac".toList none →
    ∃ interfaces, probe.interfaces = .ok interfaces ∧
      ∃ interface ∈ interfaces, interface.mac = boot.mac

/-- A probe has the boot record that its sources resolve to, whatever these hold. -/
theorem ofSystem_resolution (files : BootFiles) (listing : Listing) :
    Resolution files listing (ofSystem listing files) := by
  constructor
  case boot_iff => exact fun found => boot_eq_iff
  case product_unneeded =>
    intro uuid given product
    have same : (⟨files.commandLine, product⟩ : BootFiles).uuid = files.uuid := by
      rw [uuid_of_identifies (.parameter given)]
      exact uuid_of_identifies (.parameter given)
    show BootFiles.boot _ listing = files.boot listing
    rw [BootFiles.boot, same]
    rfl
  case listing_unneeded =>
    rintro (unknown | ⟨mac, given⟩) other
    · exact (boot_of_resolves (.unidentified unknown)).trans
        (boot_of_resolves (.unidentified unknown)).symm
    · show files.boot other = files.boot listing
      rw [BootFiles.boot, BootFiles.boot, BootFiles.mac, BootFiles.mac, gives_mac_iff.1 given]
  case filled =>
    intro boot found
    cases boot_eq_iff.1 found with
    | resolved identifies addresses =>
        exact ⟨ne_empty_of_identifies identifies, (normal_of_addresses addresses rfl).1⟩
  case normal =>
    intro boot found
    cases boot_eq_iff.1 found with
    | resolved identifies addresses =>
        have normal := (normal_of_addresses addresses rfl).2
        exact ⟨normalizeMac_eq_self_iff.2 normal, normal⟩
  case mac_of_interface =>
    intro boot found missing
    cases boot_eq_iff.1 found with
    | resolved identifies addresses => exact interface_of_addresses addresses missing rfl

end NodeInventory.Probe
