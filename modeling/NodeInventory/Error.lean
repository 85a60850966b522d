/-!
# Why an inventory cannot be made
-/

namespace NodeInventory

inductive InventoryError
  | notRegistered (id : String)
  | invalidRule (tool reason : String)
  | validation (text : String)
deriving DecidableEq, Repr

namespace InventoryError

def message : InventoryError → String
  | .notRegistered id => "Tool not registered: " ++ id
  | .invalidRule tool reason => "Invalid extraction rule for " ++ tool ++ ": " ++ reason
  | .validation text => "Validation error: " ++ text

end InventoryError

end NodeInventory
