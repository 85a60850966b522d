import NodeInventory.Error
import NodeInventory.Node
import NodeInventory.Versions

/-!
# The report a node sends
-/

namespace NodeInventory

structure Report where
  interfaces : List Interface
  boot : BootRecord
  versions : Versions
deriving DecidableEq, Repr

namespace Report

def isBlankVersion (version : String) : Bool := Text.trim version.toList = []

/-- A report records no blank version: a tool without one is left out. -/
def of (interfaces : List Interface) (boot : BootRecord) (versions : Versions) :
    Except InventoryError Report :=
  match versions.entries.find? fun entry => isBlankVersion entry.2 with
  | some entry => .error (.validation ("empty version recorded for '" ++ entry.1 ++ "'"))
  | none => .ok ⟨interfaces, boot, versions⟩

def identity (report : Report) : Identity := report.boot.identity

end Report

end NodeInventory
