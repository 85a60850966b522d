import NodeInventory.Json.Value
import NodeInventory.Report.Wire
import NodeInventory.Retry
import NodeInventory.Shutdown
import NodeInventory.Transport.Basic

/-!
# Delivering a report

The report is written once and submitted until the service accepts it or the attempts are used up.
Attempts never overlap: the wait before the next one starts when the outcome of the last is known,
and ends when the timer rings.
A shutdown ends a wait, never an attempt.
-/

namespace NodeInventory

open Shutdown Transport

inductive DeliveryError
  | unreachable (attempts : Nat) (lastError : String)
  | cancelled (attempts : Nat)
deriving DecidableEq, Repr

def DeliveryError.message : DeliveryError → String
  | .unreachable attempts lastError =>
      "Discovery service unreachable after " ++ toString attempts ++ " attempts: " ++ lastError
  | .cancelled attempts => "Publish cancelled after " ++ toString attempts ++ " attempts"

/-- The service has the report. -/
structure Ack where
  attempts : Nat
  status : Nat
  /-- Whether the service says that the node was unknown to it. -/
  newRecord : Option Bool
deriving DecidableEq, Repr

/-- What a reply says under the key `new-discovery`. -/
def newRecord? (body : String) : Option Bool :=
  (Json.parse? body).bind fun reply => (reply.get? "new-discovery").bind Json.bool?

structure Attempt where
  start : Nat
  url : String
  body : String
deriving DecidableEq, Repr

/-- A delivery: its attempts, what it comes to, and when. -/
structure Delivery where
  attempts : List Attempt
  result : Except DeliveryError Ack
  finish : Nat
deriving Repr

structure Publisher where
  endpoint : String
  policy : RetryPolicy
deriving DecidableEq, Repr

/-- What follows an attempt: it closes the delivery, or the policy allows another one. -/
inductive Sequel (policy : RetryPolicy) (attempts : UInt32)
  | closed (result : Except DeliveryError Ack) (finish : Nat)
  | again (allowed : attempts < policy.maxAttempts) (start : Nat)

/-- A way to submit a body to an address, for the attempt after so many failures. -/
abbrev Submission (m : Type → Type) := (failures : UInt32) → (url body : String) → m Reply

namespace Publisher

variable (publisher : Publisher) (timer : Timer)

/-- What follows the attempt of a number, from the time on at which its outcome is known.  `tie n`
settles the race between the wait after the `n`-th failure and a shutdown where both end at once. -/
def sequel (event : Option Event) (tie : Nat → Branch) (attempts : UInt32) (known : Nat) :
    Except Transport.Error Receipt → Sequel publisher.policy attempts
  | .ok receipt => .closed (.ok ⟨attempts.toNat, receipt.status, newRecord? receipt.body⟩) known
  | .error error =>
      match next : publisher.policy.afterFailure attempts.toNat with
      | .exhausted => .closed (.error (.unreachable attempts.toNat error.message)) known
      | .retry delay =>
          match race (tie attempts.toNat) known (known + timer.wait delay) event with
          | (.stop, time) => .closed (.error (.cancelled attempts.toNat)) time
          | (.timer, time) =>
              .again (UInt32.lt_iff_toNat_lt.2 (RetryPolicy.lt_maxAttempts_of_retry next)) time

/-- The delivery from a time on, after some failures, over a way to submit.  Their counter has 32
bits, and is never at its end. -/
def deliverBy {m : Type → Type} [Monad m] (submit : Submission m) (body : String)
    (event : Option Event) (tie : Nat → Branch) (failures : publisher.policy.Survivable)
    (now : Nat) : m Delivery := do
  let reply ← submit failures publisher.endpoint body
  let attempt : Attempt := ⟨now, publisher.endpoint, body⟩
  let attempts : UInt32 := failures + 1
  match publisher.sequel timer event tie attempts (now + reply.latency) reply.outcome with
  | .closed result finish => return ⟨[attempt], result, finish⟩
  | .again allowed start =>
      let later ← deliverBy submit body event tie ⟨attempts, allowed⟩ start
      return { later with attempts := attempt :: later.attempts }
termination_by publisher.policy.maxAttempts.toNat - failures.val.toNat
decreasing_by
  have := failures.toNat_add_one
  have := failures.toNat_lt
  omega

/-- The delivery to a service whose replies are given. -/
def deliverFrom (body : String) (replies : Replies) (event : Option Event) (tie : Nat → Branch)
    (failures : publisher.policy.Survivable) (now : Nat) : Delivery :=
  Id.run <| publisher.deliverBy timer (fun failures _ _ => pure (replies failures.toNat)) body
    event tie failures now

/-- Delivers a report from a time on. -/
def publish (report : Report) (replies : Replies) (now : Nat) : Delivery :=
  publisher.deliverFrom timer report.wire replies none (fun _ => .timer)
    publisher.policy.noFailures now

/-- Delivers a report from a time on, unless a shutdown ends a wait. -/
def publishUntil (report : Report) (replies : Replies) (event : Option Event)
    (tie : Nat → Branch) (now : Nat) : Delivery :=
  publisher.deliverFrom timer report.wire replies event tie publisher.policy.noFailures now

end Publisher

end NodeInventory
