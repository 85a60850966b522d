/-!
# One submission to the discovery service
-/

namespace NodeInventory.Transport

/-- The service has accepted a submission. -/
structure Receipt where
  status : Nat
  body : String
deriving DecidableEq, Repr

inductive Error
  | connect (reason : String)
  | timeout (reason : String)
  | status (code : Nat) (body : String)
  | request (reason : String)
deriving DecidableEq, Repr

def Error.message : Error → String
  | .connect reason => "Connection failed: " ++ reason
  | .timeout reason => "Request timed out: " ++ reason
  | .status code body => "Unexpected status " ++ toString code ++ ": " ++ body
  | .request reason => "Request failed: " ++ reason

/-- The outcome of a submission and the milliseconds until it is known. -/
structure Reply where
  outcome : Except Error Receipt
  latency : Nat
deriving Repr

/-- The replies to submission after submission, without end. -/
abbrev Replies := Nat → Reply

/-- The service takes the report and calls the node new. -/
def accepted : Except Error Receipt := .ok ⟨200, "\x7b\"new-discovery\": true\x7d"⟩

/-- The service is not there. -/
def refused : Except Error Receipt := .error (.connect "connection refused")

namespace Replies

/-- The replies of a list, and then one for ever. -/
def ofList (script : List Reply) (fallback : Reply) : Replies := fun n => script.getD n fallback

/-- A service that is not there for some submissions and then takes every one. -/
def refuseThenAccept (failures latency : Nat) : Replies := fun n =>
  ⟨if n < failures then refused else accepted, latency⟩

def refuseAll (latency : Nat) : Replies := fun _ => ⟨refused, latency⟩

/-- The replies after the first `n`. -/
def drop (replies : Replies) (n : Nat) : Replies := fun k => replies (n + k)

end Replies

end NodeInventory.Transport
