import NodeInventory.Delivery
import NodeInventory.Error
import NodeInventory.Probe.Basic

/-!
# Failures of the whole program
-/

namespace NodeInventory

inductive Failure
  | inventory (error : InventoryError)
  | settings (reason : String)
  | probe (error : ProbeError)
  | delivery (error : DeliveryError)
deriving DecidableEq, Repr

namespace Failure

def message : Failure → String
  | .inventory error => "Domain error: " ++ error.message
  | .settings reason => "Configuration error: " ++ reason
  | .probe error => "Probe error: " ++ error.message
  | .delivery error => "Publish error: " ++ error.message

/-- Whether the service could not be reached in all attempts. -/
def isUnreachable : Failure → Bool
  | .delivery (.unreachable ..) => true
  | _ => false

end Failure

end NodeInventory
