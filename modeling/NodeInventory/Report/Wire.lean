import NodeInventory.Json.Printer
import NodeInventory.Report.Basic

/-!
# Reports as JSON
-/

namespace NodeInventory

open Json

def Interface.toJson (interface : Interface) : Json :=
  .object
    [("ipv4", .string interface.ipv4), ("cidrv4", .string interface.cidr),
     ("netmask", .number (.ofNat interface.netmask.toNat)), ("name", .string interface.name),
     ("mac", .string interface.mac)]

def BootRecord.toJson (boot : BootRecord) : Json :=
  .object [("mac", .string boot.mac), ("uuid", .string boot.uuid)]

def Versions.toJson (versions : Versions) : Json :=
  .object (versions.entries.map fun entry => (entry.1, .string entry.2))

namespace Report

def toJson (report : Report) : Json :=
  .object
    [("interfaces", .array (report.interfaces.map Interface.toJson)),
     ("bootInfo", report.boot.toJson), ("versions", report.versions.toJson)]

/-- The text sent to the discovery service. -/
def wire (report : Report) : String := String.ofList report.toJson.compact

/-- The text shown to a reader. -/
def pretty (report : Report) : String := String.ofList (report.toJson.indented 0)

end Report

end NodeInventory
