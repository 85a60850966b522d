import NodeInventory.Text.Blank
import NodeInventory.Text.Search

/-!
# What identifies a node

Interfaces, the boot record, and the identity under which a node is registered.
-/

namespace NodeInventory

structure Interface where
  ipv4 : String
  cidr : String
  /-- Prefix length, such as 24 for 255.255.255.0. -/
  netmask : UInt8
  name : String
  mac : String
deriving DecidableEq, Repr

def Interface.of (ipv4 : String) (netmask : UInt8) (name mac : String) : Interface :=
  ⟨ipv4, ipv4 ++ "/" ++ toString netmask.toNat, netmask, name, mac⟩

/-- A hardware address without surrounding blanks, in lower case, with colons between its parts. -/
def normalizeMac (mac : String) : String :=
  String.ofList (Text.lower ((Text.trim mac.toList).map fun c => if c = '-' then ':' else c))

structure BootRecord where
  mac : String
  uuid : String
deriving DecidableEq, Repr

def BootRecord.of (mac uuid : String) : BootRecord := ⟨normalizeMac mac, uuid⟩

structure Identity where
  mac : String
  uuid : String
deriving DecidableEq, Repr

namespace Identity

/-- Hardware addresses first, then identifiers, each in code point order. -/
instance : LT Identity where
  lt a b := a.mac < b.mac ∨ a.mac = b.mac ∧ a.uuid < b.uuid

instance (a b : Identity) : Decidable (a < b) :=
  inferInstanceAs (Decidable (a.mac < b.mac ∨ a.mac = b.mac ∧ a.uuid < b.uuid))

def text (identity : Identity) : String := identity.uuid ++ "/" ++ identity.mac

/-- Puts an identity in its place, unless it is already there. -/
def insert (identity : Identity) : List Identity → List Identity
  | [] => [identity]
  | head :: rest =>
      if identity < head then identity :: head :: rest
      else if head < identity then head :: insert identity rest
      else head :: rest

/-- The different identities of a list, ascending. -/
def collect (identities : List Identity) : List Identity :=
  identities.foldl (fun found identity => insert identity found) []

end Identity

def BootRecord.identity (boot : BootRecord) : Identity := ⟨boot.mac, boot.uuid⟩

end NodeInventory
