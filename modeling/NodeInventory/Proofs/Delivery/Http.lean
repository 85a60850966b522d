import NodeInventory.Proofs.Delivery.Outcome
import NodeInventory.Transport.Http

/-!
# Delivering over HTTP

The loop of a delivery submits over an HTTP client in place of the service: it hands its requests to
the client, which answers them in the order in which they come.  It makes the delivery to the
service behind the client, with one request per attempt.
-/

namespace NodeInventory

/-! ## One submission -/

namespace Transport

/-- A use of an HTTP client, which keeps the requests that it was handed. -/
abbrev Session := StateM (List Request)

namespace Answers

variable (answers : Answers)

/-- Hands a request to the client. -/
def send (request : Request) : Session (Answer × Nat) := fun sent =>
  (answers sent.length, sent ++ [request])

/-- Submits a body over the client. -/
def submit : Submission Session := fun _ url body => do
  let (answer, latency) ← answers.send (.submission url body)
  return ⟨outcomeOf answer, latency⟩

theorem logs_submit : Logs answers.submit answers.replies fun _ => .submission :=
  fun _ _ _ _ => rfl

end Answers

/-! ## What an answer says -/

/-- The statuses that accept a submission. -/
def Accepting (status : Nat) : Prop := 200 ≤ status ∧ status ≤ 299

/-- A response with an accepting status, whatever its body. -/
def Accepted (answer : Answer) : Prop :=
  ∃ response, answer = .ok response ∧ Accepting response.status

/-- How an answer that accepts nothing is reported. -/
inductive ReportedAs : Answer → Error → Prop
  /-- Whether or not it is marked as one of connecting, too. -/
  | timeout {error : ClientError} (marked : error.isTimeout = true) :
      ReportedAs (.error error) (.timeout error.text)
  | connect {error : ClientError} (unmarked : error.isTimeout = false)
      (marked : error.isConnect = true) : ReportedAs (.error error) (.connect error.text)
  | request {error : ClientError} (unmarked : error.isTimeout = false)
      (unmarked' : error.isConnect = false) : ReportedAs (.error error) (.request error.text)
  | status {code : Nat} {body : String} (refused : ¬ Accepting code) :
      ReportedAs (.ok ⟨code, some body⟩) (.status code body)
  | unreadable {code : Nat} (refused : ¬ Accepting code) :
      ReportedAs (.ok ⟨code, none⟩) (.status code "")

theorem outcome_of_accepting {response : Response} (accepting : Accepting response.status) :
    response.outcome = .ok ⟨response.status, response.body.getD ""⟩ := by
  obtain ⟨low, high⟩ := accepting
  exact if_pos ⟨low, by omega⟩

theorem outcome_of_not_accepting {response : Response} (refused : ¬ Accepting response.status) :
    response.outcome = .error (.status response.status (response.body.getD "")) :=
  if_neg fun ⟨low, high⟩ => refused ⟨low, by omega⟩

/-- An answer that accepts nothing fails the submission, in the way that it is reported. -/
theorem outcomeOf_of_not_accepted {answer : Answer} (refused : ¬ Accepted answer) :
    ∃ error, outcomeOf answer = .error error ∧ ReportedAs answer error := by
  match answer with
  | .error ⟨text, true, _⟩ => exact ⟨_, rfl, .timeout rfl⟩
  | .error ⟨text, false, true⟩ => exact ⟨_, rfl, .connect rfl rfl⟩
  | .error ⟨text, false, false⟩ => exact ⟨_, rfl, .request rfl rfl⟩
  | .ok ⟨status, body⟩ =>
      have outside : ¬ Accepting status := fun accepting => refused ⟨_, rfl, accepting⟩
      refine ⟨_, outcome_of_not_accepting outside, ?_⟩
      cases body with
      | some body => exact .status outside
      | none => exact .unreadable outside

variable {answers : Answers} {n : Nat}

theorem outcome_replies_of_accepting {response : Response} (answer : (answers n).1 = .ok response)
    (accepting : Accepting response.status) :
    (answers.replies n).outcome = .ok ⟨response.status, response.body.getD ""⟩ := by
  rw [Answers.replies, answer]
  exact outcome_of_accepting accepting

theorem failed_of_not_accepted (refused : ¬ Accepted (answers n).1) :
    ∃ error, (answers.replies n).outcome = .error error :=
  (outcomeOf_of_not_accepted refused).imp fun _ => And.left

end Transport

namespace Publisher

open Shutdown Transport

/-! ## The loop over the client -/

/-- Delivers a report over an HTTP client from a time on. -/
def publishOver (publisher : Publisher) (timer : Timer) (answers : Answers) (report : Report)
    (now : Nat) : Session Delivery :=
  publisher.deliverBy timer answers.submit report.wire none (fun _ => .timer)
    publisher.policy.noFailures now

theorem publishOver_run (publisher : Publisher) (timer : Timer) (answers : Answers)
    (report : Report) (now : Nat) :
    (publisher.publishOver timer answers report now).run [] =
      let delivery := publisher.publish timer report answers.replies now
      (delivery,
        .replicate delivery.attempts.length (.submission publisher.endpoint report.wire)) := by
  rw [publishOver, deliverBy_run answers.logs_submit _ [] rfl]
  simp only [List.map_const', List.length_range', List.nil_append]
  rfl

/-- What the body of a response says of the record; one that cannot be read says nothing. -/
def BodyTells : Option String → Option Bool → Prop
  | some text, said => TellsOfRecord text said
  | none, said => said = none

theorem bodyTells_newRecord? (body : Option String) :
    BodyTells body (newRecord? (body.getD "")) := by
  cases body with
  | some text => exact tellsOfRecord_newRecord? text
  | none => rfl

/-- What a delivery over an HTTP client comes to, where a number of attempts is allowed, and the
requests that it sends. -/
structure ServedOver (endpoint body : String) (bound : Nat) (answers : Answers)
    (delivery : Delivery) (sent : List Request) : Prop where
  length_sent : sent.length = delivery.attempts.length
  alike : ∀ request ∈ sent,
    request = ⟨"POST", endpoint, [("content-type", "application/json")], body⟩
  /-- The first acceptance counts, also one whose body cannot be read. -/
  acknowledged : ∀ k response, k < bound → (answers k).1 = .ok response →
    Accepting response.status → (∀ n < k, ¬ Accepted (answers n).1) →
      delivery.attempts.length = k + 1 ∧ ∃ said, BodyTells response.body said ∧
        delivery.result = .ok ⟨k + 1, response.status, said⟩
  /-- The last answer is the one that is reported. -/
  unreachable : (∀ n < bound, ¬ Accepted (answers n).1) →
    delivery.attempts.length = bound ∧ ∃ error text,
      ReportedAs (answers (bound - 1)).1 error ∧ error.Reads text ∧
        delivery.result = .error (.unreachable bound text)

/-- A delivery over an HTTP client is the delivery to the service behind it: one request per
attempt, all of them alike, up to the first accepting status or the last attempt that the policy
allows. -/
theorem publish_servedOver (endpoint : String) (maxAttempts : UInt32) (delay : Duration)
    (factor : Binary64) (timer : Timer) (report : Report) (answers : Answers) (now : Nat) :
    let publisher : Publisher := ⟨endpoint, .of maxAttempts delay factor⟩
    let (delivery, sent) := (publisher.publishOver timer answers report now).run []
    delivery = publisher.publish timer report answers.replies now ∧
      ServedOver endpoint report.wire (max 1 maxAttempts.toNat) answers delivery sent := by
  intro publisher
  have bound : publisher.policy.maxAttempts.toNat = max 1 maxAttempts.toNat :=
    RetryPolicy.of_maxAttempts_toNat maxAttempts delay factor
  obtain ⟨last, course⟩ := exists_course_publish publisher timer report answers.replies now
  rw [publishOver_run]
  generalize publisher.publish timer report answers.replies now = delivery at course ⊢
  refine ⟨rfl, ?_⟩
  constructor
  case length_sent => exact List.length_replicate
  case alike => exact fun request mem => List.eq_of_mem_replicate mem
  case acknowledged =>
    intro k response lt answer accepting refused
    obtain ⟨made, result⟩ := course.ends_accepted (bound ▸ lt)
      (outcome_replies_of_accepting answer accepting)
      fun n before => failed_of_not_accepted (refused n before)
    exact ⟨made, _, bodyTells_newRecord? response.body, result⟩
  case unreachable =>
    intro refused
    obtain ⟨error, outcome, reported⟩ := outcomeOf_of_not_accepted
      (refused (max 1 maxAttempts.toNat - 1) (by omega))
    obtain ⟨made, result⟩ := course.ends_spent bound
      (fun n lt => failed_of_not_accepted (refused n lt)) outcome
    exact ⟨made, error, _, reported, error.reads_message, result⟩

/-- The client runs into its limit while it connects, and then finds the service overloaded, which
takes the third submission without a body that can be read.  Where two are all that is allowed, the
last answer is reported. -/
theorem publish_servedOver_of_overload :
    let slow : Answer × Nat := (.error ⟨"operation timed out", true, true⟩, 10000)
    let full : Answer × Nat := (.ok ⟨503, some "overloaded"⟩, 20)
    let taken : Answer × Nat := (.ok ⟨299, none⟩, 30)
    let answers (script : List (Answer × Nat)) : Answers := fun n => script.getD n taken
    let publisher (allowed : UInt32) : Publisher :=
      ⟨"http://127.0.0.1:5000/discovery", .of allowed (.ofMillis 5) 2⟩
    let report : Report := ⟨[], ⟨"52:54:00:00:00:01", "4c4c4544"⟩, .empty⟩
    let result (allowed : UInt32) (script : List (Answer × Nat)) :=
      ((publisher allowed).publishOver .exact (answers script) report 0).run [] |>.1.result
    result 3 [slow, full] = .ok ⟨3, 299, none⟩ ∧
      result 2 [slow, full] = .error (.unreachable 2 "Unexpected status 503: overloaded") ∧
      result 2 [full, slow] = .error (.unreachable 2 "Request timed out: operation timed out") := by
  intro slow full taken answers publisher report result
  have served (allowed : UInt32) (script : List (Answer × Nat)) :=
    (publish_servedOver "http://127.0.0.1:5000/discovery" allowed (.ofMillis 5) 2 .exact report
      (answers script) 0).2
  have slow_refused : ¬ Accepted slow.1 := fun ⟨_, eq, _⟩ => nomatch eq
  have full_refused : ¬ Accepted full.1 := fun ⟨_, eq, accepting⟩ => by
    cases eq
    exact absurd accepting.2 (by decide)
  refine ⟨?accepted, ?status, ?timeout⟩
  case accepted =>
    obtain ⟨-, said, rfl, result⟩ := (served 3 [slow, full]).acknowledged 2 _ (by decide) rfl
      ⟨by decide, by decide⟩ fun
        | 0, _ => slow_refused
        | 1, _ => full_refused
    exact result
  case status =>
    obtain ⟨-, _, _, reported, text, result⟩ := (served 2 [slow, full]).unreachable fun
      | 0, _ => slow_refused
      | 1, _ => full_refused
    cases reported
    cases text
    exact result
  case timeout =>
    obtain ⟨-, _, _, reported, text, result⟩ := (served 2 [full, slow]).unreachable fun
      | 0, _ => full_refused
      | 1, _ => slow_refused
    cases reported with
    | timeout =>
        cases text
        exact result
    | connect unmarked | request unmarked => cases unmarked

end Publisher

end NodeInventory
