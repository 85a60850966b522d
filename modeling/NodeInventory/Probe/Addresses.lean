import NodeInventory.Number.Literal
import NodeInventory.Probe.Basic

/-!
# Interfaces from the address entries of a system

The system lists one entry per address.  One pass over the entries off the loopback collects the
IPv4 addresses and, by name, the hardware addresses; only then are the two put together, so that a
link entry may stand anywhere.
-/

namespace NodeInventory.Probe

structure Ipv4 where
  a : UInt8
  b : UInt8
  c : UInt8
  d : UInt8
deriving DecidableEq, Repr

namespace Ipv4

def octets (ip : Ipv4) : List UInt8 := [ip.a, ip.b, ip.c, ip.d]

def text (ip : Ipv4) : String := ".".intercalate (ip.octets.map fun octet => toString octet.toNat)

/-- The address that four decimal numbers spell. -/
def ofText? (text : String) : Option Ipv4 :=
  match (Text.split (· == '.') text.toList).map (Number.natural? 255) with
  | [some a, some b, some c, some d] =>
      some ⟨UInt8.ofNat a, UInt8.ofNat b, UInt8.ofNat c, UInt8.ofNat d⟩
  | _ => none

/-- The number of one bits among the lowest `n`. -/
def onesBelow (value : Nat) : Nat → Nat
  | 0 => 0
  | n + 1 => onesBelow value n + (value >>> n) % 2

/-- The number of one bits, which is the prefix length of a netmask. -/
def ones (ip : Ipv4) : Nat := ip.octets.foldl (fun sum octet => sum + onesBelow octet.toNat 8) 0

end Ipv4

inductive Address
  /-- A link address, with its hardware address if it has one. -/
  | link (hardware : Option (List UInt8))
  | ipv4 (ip : Ipv4)
  | other
deriving DecidableEq, Repr

structure Entry where
  name : String
  flags : Nat
  address : Option Address
  netmask : Option Address
deriving DecidableEq, Repr

/-- Bytes as pairs of lower-case hexadecimal digits with colons between them. -/
def hardwareText (bytes : List UInt8) : String :=
  ":".intercalate (bytes.map fun b =>
    String.ofList [Nat.digitChar (b.toNat / 16), Nat.digitChar (b.toNat % 16)])

namespace Entry

def isLoopback (entry : Entry) : Bool := entry.flags / 8 % 2 = 1

/-- The prefix length; without an IPv4 netmask the address stands alone. -/
def prefixLength (entry : Entry) : Nat :=
  match entry.netmask with
  | some (.ipv4 mask) => mask.ones
  | _ => 32

end Entry

/-- What the entries have given so far: the hardware addresses of names, the newest first, and in
their order the IPv4 addresses, each with its name and prefix length. -/
structure Found where
  hardware : List (String × String)
  addresses : List (String × Ipv4 × Nat)
deriving DecidableEq, Repr

namespace Found

def empty : Found := ⟨[], []⟩

def take (found : Found) (entry : Entry) : Found :=
  if entry.isLoopback then found
  else
    match entry.address with
    | some (.link (some bytes)) =>
        { found with hardware := (entry.name, hardwareText bytes) :: found.hardware }
    | some (.ipv4 ip) =>
        { found with addresses := found.addresses ++ [(entry.name, ip, entry.prefixLength)] }
    | _ => found

/-- The newest hardware address of a name, empty if it has none. -/
def hardwareOf (found : Found) (name : String) : String := (found.hardware.lookup name).getD ""

def interfaces (found : Found) : List Interface :=
  found.addresses.map fun (name, ip, length) =>
    .of ip.text (UInt8.ofNat length) name (found.hardwareOf name)

end Found

def interfacesOf (entries : List Entry) : List Interface :=
  (entries.foldl Found.take .empty).interfaces

/-- Why a system does not list its addresses: the name of an error and what it says. -/
structure SystemError where
  name : String
  description : String
deriving DecidableEq, Repr

namespace SystemError

def ofCode? : Nat → Option SystemError
  | 1 => some ⟨"EPERM", "Operation not permitted"⟩
  | 12 => some ⟨"ENOMEM", "Out of memory"⟩
  | 13 => some ⟨"EACCES", "Permission denied"⟩
  | 24 => some ⟨"EMFILE", "Too many open files"⟩
  | _ => none

def message (error : SystemError) : String := error.name ++ ": " ++ error.description

end SystemError

/-- What a system answers when asked for its addresses. -/
abbrev Listing := Except SystemError (List Entry)

def Listing.interfaces (listing : Listing) : Except ProbeError (List Interface) :=
  match listing with
  | .error error => .error (.interfaces error.message)
  | .ok entries => .ok (interfacesOf entries)

end NodeInventory.Probe
