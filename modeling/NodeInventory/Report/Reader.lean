import NodeInventory.Json.Typed
import NodeInventory.Report.Basic

/-!
# Reading reports

The boot record goes by two names, and versions may be left out.
-/

namespace NodeInventory

open Json

namespace Interface

/-- The value of a field: a text, or the prefix length. -/
inductive FieldValue
  | text (value : String)
  | octet (value : UInt8)
deriving DecidableEq, Repr

def FieldValue.text? : FieldValue → Option String
  | .text value => some value
  | .octet _ => none

def FieldValue.octet? : FieldValue → Option UInt8
  | .octet value => some value
  | .text _ => none

def shape : Shape FieldValue Interface where
  names := ["ipv4", "cidrv4", "netmask", "name", "mac"]
  aliases := []
  value name := if name = "netmask" then Reader.octet.map .octet else Reader.text.map .text
  build fields := do
    let ipv4 ← (← fields.lookup "ipv4").text?
    let cidr ← (← fields.lookup "cidrv4").text?
    let netmask ← (← fields.lookup "netmask").octet?
    let name ← (← fields.lookup "name").text?
    let mac ← (← fields.lookup "mac").text?
    some ⟨ipv4, cidr, netmask, name, mac⟩

end Interface

namespace BootRecord

def shape : Shape String BootRecord where
  names := ["mac", "uuid"]
  aliases := []
  value _ := Reader.text
  build fields := do
    let mac ← fields.lookup "mac"
    let uuid ← fields.lookup "uuid"
    some ⟨mac, uuid⟩

end BootRecord

namespace Report

inductive FieldValue
  | interfaces (value : List Interface)
  | boot (value : BootRecord)
  | versions (value : Versions)
deriving DecidableEq, Repr

def FieldValue.interfaces? : FieldValue → Option (List Interface)
  | .interfaces value => some value
  | _ => none

def FieldValue.boot? : FieldValue → Option BootRecord
  | .boot value => some value
  | _ => none

def FieldValue.versions? : FieldValue → Option Versions
  | .versions value => some value
  | _ => none

/-- The reader of one field. -/
def fieldReader (name : String) : Reader FieldValue :=
  if name = "interfaces" then (Reader.list Interface.shape.reader).map .interfaces
  else if name = "bootInfo" then BootRecord.shape.reader.map .boot
  else (Reader.dictionary Reader.text).map fun entries => .versions (Versions.ofList entries)

def shape : Shape FieldValue Report where
  names := ["interfaces", "bootInfo", "versions"]
  aliases := [("boot-info", "bootInfo")]
  value := fieldReader
  build fields := do
    let interfaces ← (← fields.lookup "interfaces").interfaces?
    let boot ← (← fields.lookup "bootInfo").boot?
    let versions := ((fields.lookup "versions").bind (·.versions?)).getD Versions.empty
    some ⟨interfaces, boot, versions⟩

/-- The report that a text in bytes spells. -/
def ofBytes (bytes : List UInt8) : Except Fault Report := document shape.reader bytes

def ofText (text : String) : Except Fault Report := ofBytes (Text.Utf8.encode text.toList)

end Report

end NodeInventory
