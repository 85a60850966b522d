import NodeInventory.Duration
import NodeInventory.Transport.Basic

/-!
# Submitting over HTTP

A submission is one POST request.  Every status from 200 to 299 is an acceptance, whether or not
its body can be read; a body that cannot be read counts as empty.
-/

namespace NodeInventory.Transport

/-- An error of the HTTP client, with its marks. -/
structure ClientError where
  text : String
  isTimeout : Bool
  isConnect : Bool
deriving DecidableEq, Repr

/-- A response; its body is absent when it could not be read. -/
structure Response where
  status : Nat
  body : Option String
deriving DecidableEq, Repr

structure Request where
  method : String
  url : String
  headers : List (String × String)
  body : String
deriving DecidableEq, Repr

/-- An HTTP client and its limits. -/
structure Client where
  timeout : Duration
  connectTimeout : Duration
deriving DecidableEq, Repr

namespace Client

def defaultTimeout : Duration := .ofSecs 10

/-- A client with one limit for connecting and for the whole request, unless it cannot be built. -/
def build (timeout : Duration) (failure : Option ClientError) : Except Error Client :=
  match failure with
  | some error => .error (.request ("Failed to create client: " ++ error.text))
  | none => .ok ⟨timeout, timeout⟩

end Client

/-- The request of a submission. -/
def Request.submission (url body : String) : Request :=
  ⟨"POST", url, [("content-type", "application/json")], body⟩

/-- The mark for a timeout counts before the one for a connection. -/
def ClientError.classify (error : ClientError) : Error :=
  if error.isTimeout then .timeout error.text
  else if error.isConnect then .connect error.text
  else .request error.text

def Response.outcome (response : Response) : Except Error Receipt :=
  let body := response.body.getD ""
  if 200 ≤ response.status ∧ response.status < 300 then .ok ⟨response.status, body⟩
  else .error (.status response.status body)

/-- What the client answers to a request. -/
abbrev Answer := Except ClientError Response

def outcomeOf : Answer → Except Error Receipt
  | .error error => .error error.classify
  | .ok response => response.outcome

/-- A client's answers to request after request, with the milliseconds until each arrives. -/
abbrev Answers := Nat → Answer × Nat

/-- The service behind an HTTP client. -/
def Answers.replies (answers : Answers) : Replies := fun n =>
  ⟨outcomeOf (answers n).1, (answers n).2⟩

end NodeInventory.Transport
