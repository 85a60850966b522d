import NodeInventory.Probe.Addresses
import NodeInventory.Text.Utf8

/-!
# The boot identity of a node

The parameters `uuid` and `mac` of the kernel command line come first; in their stead stand the
product identifier of the firmware and the first hardware address of an interface.  A source that
is not needed is not looked at.
-/

namespace NodeInventory.Probe

open Text

/-- The boot parameters of a kernel command line. -/
structure BootParameters where
  uuid : Option (List Char)
  mac : Option (List Char)
deriving DecidableEq, Repr

namespace BootParameters

def empty : BootParameters := ⟨none, none⟩

/-- The value of a word with the given key; an empty value is none. -/
def valueOf? (key word : List Char) : Option (List Char) :=
  if (key ++ ['=']).isPrefixOf word ∧ word.drop (key.length + 1) ≠ [] then
    some (word.drop (key.length + 1))
  else none

/-- Later words count before earlier ones. -/
def take (found : BootParameters) (word : List Char) : BootParameters :=
  match valueOf? "uuid".toList word with
  | some value => { found with uuid := some value }
  | none =>
      match valueOf? "mac".toList word with
      | some value => { found with mac := some value }
      | none => found

def parse (commandLine : List Char) : BootParameters := (words commandLine).foldl take empty

end BootParameters

/-- The contents of the files that tell a node's identity, absent where there is no such file. -/
structure BootFiles where
  commandLine : Option (List UInt8)
  product : Option (List UInt8)
deriving DecidableEq, Repr

/-- The text of a file without surrounding blanks, if it is text and holds more than blanks. -/
def readTrimmed (file : Option (List UInt8)) : Option (List Char) :=
  ((file.bind Utf8.decode?).map trim).filter (· ≠ [])

namespace BootFiles

def parameters (files : BootFiles) : BootParameters :=
  BootParameters.parse ((readTrimmed files.commandLine).getD [])

def uuid (files : BootFiles) : Except ProbeError String :=
  match files.parameters.uuid with
  | some uuid => .ok (String.ofList uuid)
  | none =>
      match readTrimmed files.product with
      | some uuid => .ok (String.ofList (lower uuid))
      | none => .error (.bootIdentity "no uuid on cmdline and no DMI uuid")

def mac (files : BootFiles) (listing : Listing) : Except ProbeError String :=
  match files.parameters.mac with
  | some mac => .ok (String.ofList mac)
  | none =>
      match listing.interfaces with
      | .error error => .error error
      | .ok interfaces =>
          match (interfaces.map Interface.mac).find? (· ≠ "") with
          | some mac => .ok mac
          | none => .error (.bootIdentity "no mac on cmdline and no interface mac")

/-- The identifier is settled before the hardware address is asked for. -/
def boot (files : BootFiles) (listing : Listing) : Except ProbeError BootRecord :=
  match files.uuid with
  | .error error => .error error
  | .ok uuid =>
      match files.mac listing with
      | .error error => .error error
      | .ok mac => .ok (BootRecord.of mac uuid)

end BootFiles

/-- A node that is probed through its address entries and its files. -/
def ofSystem (listing : Listing) (files : BootFiles) : Probe where
  interfaces := listing.interfaces
  boot := files.boot listing

end NodeInventory.Probe
