import Mathlib.Data.List.Forall2
import NodeInventory.Probe.Addresses
import NodeInventory.Proofs.Probe.Parameters

/-!
# Interfaces and the entries they come from

A pass over the entries is described by what it has read of them: the IPv4 entries one by one and,
under each name, the last hardware address.  The two are read apart from each other, so that only
the order within each of them matters.
-/

namespace NodeInventory.Probe

/-! ## Netmasks -/

namespace Ipv4

/-- The bits of an address, octet by octet. -/
def bits (ip : Ipv4) : List Bool :=
  ip.octets.flatMap fun octet => (List.range 8).map octet.toNat.testBit

theorem onesBelow_eq_count (value n : Nat) :
    onesBelow value n = ((List.range n).map value.testBit).count true := by
  induction n with
  | zero => rfl
  | succ n ih =>
      rw [onesBelow, List.range_succ, List.map_append, List.count_append, ih,
        Nat.shiftRight_eq_div_pow, ← Nat.toNat_testBit]
      cases bit : value.testBit n <;> simp [bit]

theorem ones_eq_count (ip : Ipv4) : ip.ones = ip.bits.count true := by
  simp only [ones, bits, octets, onesBelow_eq_count, List.flatMap_cons, List.flatMap_nil,
    List.count_append, List.foldl_cons, List.foldl_nil, List.count_nil, Nat.zero_add, Nat.add_zero,
    Nat.add_assoc]

theorem length_bits (ip : Ipv4) : ip.bits.length = 32 := by
  simp [bits, octets]

theorem ones_le (ip : Ipv4) : ip.ones ≤ 32 := by
  rw [ones_eq_count, ← ip.length_bits]
  exact List.count_le_length

end Ipv4

/-- How long the prefix is that a netmask leaves: its one bits if it is an IPv4 one, else all. -/
inductive HasPrefix : Option Address → Nat → Prop
  | mask (mask : Ipv4) : HasPrefix (some (.ipv4 mask)) (mask.bits.count true)
  | whole {netmask : Option Address} : (∀ mask, netmask ≠ some (.ipv4 mask)) → HasPrefix netmask 32

/-! ## Hardware addresses -/

def hexDigit (n : Fin 16) : Char := "0123456789abcdef".toList.get n

/-- A byte in two hexadecimal digits. -/
def IsHexPair (byte : UInt8) (pair : String) : Prop :=
  ∃ high low : Fin 16, byte.toNat = 16 * high + low ∧
    pair = String.ofList [hexDigit high, hexDigit low]

/-- How an interface writes the hardware address found for it, if any. -/
inductive WritesHardware : Option (List UInt8) → String → Prop
  | colons {bytes : List UInt8} {pairs : List String} :
      List.Forall₂ IsHexPair bytes pairs → WritesHardware (some bytes) (":".intercalate pairs)
  | nothing : WritesHardware none ""

theorem digitChar_eq_hexDigit : ∀ n : Fin 16, Nat.digitChar n = hexDigit n := by decide

theorem isHexPair (byte : UInt8) :
    IsHexPair byte (String.ofList [Nat.digitChar (byte.toNat / 16),
      Nat.digitChar (byte.toNat % 16)]) := by
  have bound := byte.toNat_lt
  let high : Fin 16 := ⟨byte.toNat / 16, by omega⟩
  let low : Fin 16 := ⟨byte.toNat % 16, by omega⟩
  exact ⟨high, low, (Nat.div_add_mod _ 16).symm,
    by rw [← digitChar_eq_hexDigit high, ← digitChar_eq_hexDigit low]⟩

theorem writesHardware (found : Option (List UInt8)) :
    WritesHardware found ((found.map hardwareText).getD "") := by
  cases found with
  | none => exact .nothing
  | some bytes =>
      refine .colons (List.forall₂_map_right_iff.2 ?_)
      exact List.forall₂_same.2 fun byte _ => isHexPair byte

namespace Entry

/-- An entry off the loopback that has a hardware address for a name. -/
structure GivesHardware (entry : Entry) (name : String) (bytes : List UInt8) : Prop where
  visible : entry.isLoopback = false
  named : entry.name = name
  link : entry.address = some (.link (some bytes))

def isIpv4 (entry : Entry) : Bool := entry.address matches some (.ipv4 _)

def isLink (entry : Entry) : Bool := entry.address matches some (.link _)

/-- Whether the entry makes an interface. -/
def isShown (entry : Entry) : Bool := entry.isIpv4 && !entry.isLoopback

end Entry

/-- The hardware address of a name: that of the last entry that has one for it. -/
inductive LastHardware (entries : List Entry) (name : String) : Option (List UInt8) → Prop
  | last {before behind : List Entry} {entry : Entry} {bytes : List UInt8} :
      entries = before ++ entry :: behind → entry.GivesHardware name bytes →
      (∀ later ∈ behind, ∀ bytes, ¬later.GivesHardware name bytes) →
      LastHardware entries name (some bytes)
  | nothing : (∀ entry ∈ entries, ∀ bytes, ¬entry.GivesHardware name bytes) →
      LastHardware entries name none

/-! ## One entry -/

namespace Entry

variable {entry : Entry} {name : String} {bytes : List UInt8}

def hardwareFor? (name : String) (entry : Entry) : Option (List UInt8) :=
  match entry.isLoopback, entry.address with
  | false, some (.link hardware) => if entry.name = name then hardware else none
  | _, _ => none

/-- What an entry adds to the IPv4 addresses. -/
def location? (entry : Entry) : Option (String × Ipv4 × Nat) :=
  match entry.isLoopback, entry.address with
  | false, some (.ipv4 ip) => some (entry.name, ip, entry.prefixLength)
  | _, _ => none

theorem hardwareFor?_eq_some_iff :
    entry.hardwareFor? name = some bytes ↔ entry.GivesHardware name bytes := by
  constructor
  · intro found
    unfold hardwareFor? at found
    split at found
    next visible link =>
      split at found
      next named => exact ⟨visible, named, found ▸ link⟩
      next => cases found
    next => cases found
  · rintro ⟨visible, rfl, link⟩
    rw [hardwareFor?, visible, link]
    exact if_pos rfl

theorem hardwareFor?_eq_none_iff :
    entry.hardwareFor? name = none ↔ ∀ bytes, ¬entry.GivesHardware name bytes := by
  rw [Option.eq_none_iff_forall_ne_some]
  exact forall_congr' fun _ => not_congr hardwareFor?_eq_some_iff

theorem hardwareFor?_of_not_isLink (other : (entry.isLink && entry.name = name) = false) :
    entry.hardwareFor? name = none := by
  rw [hardwareFor?_eq_none_iff]
  rintro bytes ⟨-, named, link⟩
  simp [isLink, link, named] at other

theorem location?_eq_some_iff {found : String × Ipv4 × Nat} :
    entry.location? = some found ↔ entry.isLoopback = false ∧
      ∃ ip, entry.address = some (.ipv4 ip) ∧ (entry.name, ip, entry.prefixLength) = found := by
  unfold location?
  split
  next ip visible address => simp [visible, address]
  next other =>
    refine ⟨nofun, ?_⟩
    rintro ⟨visible, ip, address, -⟩
    exact (other ip visible address).elim

theorem location?_of_not_isIpv4 (other : entry.isIpv4 = false) : entry.location? = none := by
  rw [Option.eq_none_iff_forall_ne_some]
  intro found located
  obtain ⟨-, ip, address, -⟩ := location?_eq_some_iff.1 located
  simp [isIpv4, address] at other

theorem isSome_location? (entry : Entry) : entry.location?.isSome = entry.isShown := by
  unfold location? isShown isIpv4
  cases entry.isLoopback <;> rcases entry.address with _ | _ | _ | _ <;> rfl

theorem hasPrefix (entry : Entry) : HasPrefix entry.netmask entry.prefixLength := by
  unfold prefixLength
  split
  next mask eq =>
    rw [eq, Ipv4.ones_eq_count]
    exact .mask mask
  next other => exact .whole other

theorem prefixLength_le (entry : Entry) : entry.prefixLength ≤ 32 := by
  unfold prefixLength
  split
  next mask _ => exact mask.ones_le
  next => exact Nat.le_refl _

end Entry

/-- The hardware address of the last entry that has one for the name. -/
def lastHardware? (entries : List Entry) (name : String) : Option (List UInt8) :=
  (entries.filterMap (Entry.hardwareFor? name)).getLast?

theorem lastHardware_lastHardware? (entries : List Entry) (name : String) :
    LastHardware entries name (lastHardware? entries name) := by
  cases eq : lastHardware? entries name with
  | none =>
      have unread := getLast?_filterMap_eq_none_iff.1 eq
      exact .nothing fun entry mem => Entry.hardwareFor?_eq_none_iff.1 (unread entry mem)
  | some bytes =>
      obtain ⟨before, entry, behind, split, given, none_later⟩ :=
        getLast?_filterMap_eq_some_iff.1 eq
      exact .last split (Entry.hardwareFor?_eq_some_iff.1 given) fun later mem =>
        Entry.hardwareFor?_eq_none_iff.1 (none_later later mem)

/-! ## All entries -/

namespace Found

variable {entries : List Entry}

theorem addresses_take (found : Found) (entry : Entry) :
    (found.take entry).addresses = found.addresses ++ entry.location?.toList := by
  unfold take Entry.location?
  cases entry.isLoopback <;> rcases entry.address with _ | ⟨_ | _⟩ | _ | _ <;> simp

theorem lookup_take (found : Found) (entry : Entry) (name : String) :
    (found.take entry).hardware.lookup name =
      ((entry.hardwareFor? name).map hardwareText).or (found.hardware.lookup name) := by
  unfold take Entry.hardwareFor?
  cases entry.isLoopback with
  | true => rfl
  | false =>
      rcases entry.address with _ | ⟨_ | bytes⟩ | _ | _
      case some.link.some =>
        show ((entry.name, hardwareText bytes) :: found.hardware).lookup name = _
        rw [List.lookup_cons]
        by_cases same : entry.name = name
        · simp [same]
        · simp [same, beq_false_of_ne (Ne.symm same)]
      all_goals simp

theorem addresses_foldl (entries : List Entry) (found : Found) :
    (entries.foldl take found).addresses =
      found.addresses ++ entries.filterMap Entry.location? := by
  induction entries generalizing found with
  | nil => exact (List.append_nil _).symm
  | cons entry entries ih =>
      rw [List.foldl_cons, ih, addresses_take, List.append_assoc, List.filterMap_cons]
      cases entry.location? <;> rfl

theorem lookup_foldl (entries : List Entry) (found : Found) (name : String) :
    (entries.foldl take found).hardware.lookup name =
      ((lastHardware? entries name).map hardwareText).or (found.hardware.lookup name) := by
  induction entries generalizing found with
  | nil => rfl
  | cons entry entries ih =>
      rw [List.foldl_cons, ih, lookup_take, lastHardware?, lastHardware?, getLast?_filterMap_cons,
        Option.map_or, Option.or_assoc]

end Found

theorem interfacesOf_eq_map (entries : List Entry) :
    interfacesOf entries = (entries.filterMap Entry.location?).map fun (name, ip, length) =>
      .of ip.text (UInt8.ofNat length) name
        (((lastHardware? entries name).map hardwareText).getD "") := by
  have hardware (name : String) : (entries.foldl Found.take .empty).hardwareOf name =
      ((lastHardware? entries name).map hardwareText).getD "" := by
    rw [Found.hardwareOf, Found.lookup_foldl]
    exact congrArg (·.getD "") (Option.or_none ..)
  rw [interfacesOf, Found.interfaces, Found.addresses_foldl]
  exact List.map_congr_left fun (name, ip, length) _ => congrArg _ (hardware name)

/-! ## Interfaces -/

/-- An interface as the entries of its system have it: the address and the prefix from its own
entry, the hardware address from the last entry off the loopback that has one for its name. -/
structure Presents (entries : List Entry) (entry : Entry) (interface : Interface) : Prop where
  name : interface.name = entry.name
  ipv4 : ∃ ip, entry.address = some (.ipv4 ip) ∧ interface.ipv4 = ip.text
  netmask : HasPrefix entry.netmask interface.netmask.toNat
  netmask_le : interface.netmask.toNat ≤ 32
  cidr : interface.cidr = interface.ipv4 ++ "/" ++ toString interface.netmask.toNat
  mac : ∃ found, LastHardware entries entry.name found ∧ WritesHardware found interface.mac

/-- Two listings that differ in where the link entries stand among the others, and in the order of
link entries of different names. -/
structure LinksMoved (entries moved : List Entry) : Prop where
  addresses : entries.filter Entry.isIpv4 = moved.filter Entry.isIpv4
  links : ∀ name, entries.filter (fun entry => entry.isLink && entry.name = name) =
    moved.filter fun entry => entry.isLink && entry.name = name

theorem LinksMoved.interfacesOf_eq {entries moved : List Entry} (links : LinksMoved entries moved) :
    interfacesOf moved = interfacesOf entries := by
  have locations : moved.filterMap Entry.location? = entries.filterMap Entry.location? := by
    have skipped (entry : Entry) := @Entry.location?_of_not_isIpv4 entry
    rw [← filterMap_filter_of_none skipped, ← links.addresses, filterMap_filter_of_none skipped]
  have hardware (name : String) : lastHardware? moved name = lastHardware? entries name := by
    have skipped (entry : Entry) := @Entry.hardwareFor?_of_not_isLink entry name
    rw [lastHardware?, lastHardware?, ← filterMap_filter_of_none skipped, ← links.links,
      filterMap_filter_of_none skipped]
  simp only [interfacesOf_eq_map, locations, hardware]

theorem presents_of_location? {entries : List Entry} {entry : Entry} {name : String} {ip : Ipv4}
    {length : Nat} (located : entry.location? = some (name, ip, length)) :
    Presents entries entry (.of ip.text (UInt8.ofNat length) name
      (((lastHardware? entries name).map hardwareText).getD "")) := by
  obtain ⟨-, _, address, eq⟩ := Entry.location?_eq_some_iff.1 located
  cases eq
  have netmask : (UInt8.ofNat entry.prefixLength).toNat = entry.prefixLength :=
    UInt8.toNat_ofNat_of_lt' (Nat.lt_of_le_of_lt entry.prefixLength_le (by decide))
  constructor
  case name => rfl
  case ipv4 => exact ⟨ip, address, rfl⟩
  case netmask =>
    have own := entry.hasPrefix
    rwa [← netmask] at own
  case netmask_le => exact netmask.symm ▸ entry.prefixLength_le
  case cidr => rfl
  case mac => exact ⟨_, lastHardware_lastHardware? entries entry.name, writesHardware _⟩

theorem forall₂_location? (entries : List Entry) :
    List.Forall₂ (fun entry found => entry.location? = some found)
      (entries.filter Entry.isShown) (entries.filterMap Entry.location?) := by
  induction entries with
  | nil => exact .nil
  | cons entry entries ih =>
      have shown := entry.isSome_location?
      cases located : entry.location? with
      | none =>
          rw [located] at shown
          rwa [List.filterMap_cons_none located, List.filter_cons_of_neg (by simp [← shown])]
      | some found =>
          rw [located] at shown
          rw [List.filterMap_cons_some located, List.filter_cons_of_pos shown.symm]
          exact .cons located ih

/-- Each IPv4 entry off the loopback makes one interface, in their order, and nothing else does.
Where the link entries stand makes no difference. -/
theorem Listing.interfaces_of_entries (entries : List Entry) :
    ∃ interfaces, Listing.interfaces (.ok entries) = .ok interfaces ∧
      List.Forall₂ (Presents entries) (entries.filter Entry.isShown) interfaces ∧
      ∀ moved, LinksMoved entries moved → Listing.interfaces (.ok moved) = .ok interfaces := by
  refine ⟨_, rfl, ?_, fun moved links => congrArg Except.ok links.interfacesOf_eq⟩
  rw [interfacesOf_eq_map, List.forall₂_map_right_iff]
  exact (forall₂_location? entries).imp fun _ _ located => presents_of_location? located

/-- A link entry may stand in front of the address or behind it. -/
theorem Listing.interfaces_of_link_behind :
    let hardware : Address := .link (some [0x52, 0x54, 0x00, 0x12, 0x34, 0xab])
    let link : Entry := ⟨"eth0", 0, some hardware, none⟩
    let address : Entry := ⟨"eth0", 0, some (.ipv4 ⟨10, 0, 0, 5⟩), some (.ipv4 ⟨255, 255, 255, 0⟩)⟩
    LinksMoved [link, address] [address, link] ∧
      Listing.interfaces (.ok [link, address]) =
        .ok [⟨"10.0.0.5", "10.0.0.5/24", 24, "eth0", "52:54:00:12:34:ab"⟩] ∧
      Listing.interfaces (.ok [address, link]) = Listing.interfaces (.ok [link, address]) := by
  intro hardware link address
  have moved : LinksMoved [link, address] [address, link] := by
    refine ⟨by decide, fun name => ?_⟩
    by_cases same : "eth0" = name <;> simp [link, address, hardware, Entry.isLink, same]
  obtain ⟨interfaces, listed, -, unmoved⟩ := Listing.interfaces_of_entries [link, address]
  exact ⟨moved, by decide +kernel, (unmoved _ moved).trans listed.symm⟩

end NodeInventory.Probe
