import NodeInventory.Node

/-!
# Probing a node
-/

namespace NodeInventory

inductive ProbeError
  | interfaces (reason : String)
  | bootIdentity (reason : String)
deriving DecidableEq, Repr

def ProbeError.message : ProbeError → String
  | .interfaces reason => "Interface enumeration failed: " ++ reason
  | .bootIdentity reason => "Boot identity unavailable: " ++ reason

/-- What a node says of itself when asked. -/
structure Probe where
  interfaces : Except ProbeError (List Interface)
  boot : Except ProbeError BootRecord
deriving Repr

end NodeInventory
