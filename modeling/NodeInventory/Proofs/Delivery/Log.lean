import NodeInventory.Proofs.Delivery.Schedule

/-!
# Deliveries that keep a log

The loop of a delivery submits in any way it is given.  One that keeps a log, and is answered by the
number of its entries, makes the delivery to the service with these replies, with one entry per
attempt.  The log of the counter shows that it counts the attempts.
-/

namespace NodeInventory

open Shutdown Transport

/-- A way to submit that is answered by the number of submissions so far, with a log of what each
was given. -/
def Logs {α : Type} (submit : Submission (StateM (List α))) (replies : Replies)
    (entry : (failures : UInt32) → (url body : String) → α) : Prop :=
  ∀ failures url body log, (submit failures url body).run log =
    pure (replies log.length, log ++ [entry failures url body])

namespace Publisher

variable {publisher : Publisher} {timer : Timer} {replies : Replies} {now : Nat}
variable {event : Option Event} {tie : Nat → Branch} {body : String}

/-- As long as the log has one entry per failure, it is answered with the replies that the loop is
due. -/
theorem deliverBy_run {α : Type} {submit : Submission (StateM (List α))}
    {entry : UInt32 → String → String → α} (logs : Logs submit replies entry)
    (failures : publisher.policy.Survivable) (log : List α)
    (turn : log.length = failures.val.toNat) :
    (publisher.deliverBy timer submit body event tie failures now).run log =
      let delivery := publisher.deliverFrom timer body replies event tie failures now
      pure (delivery, log ++ (List.range' log.length delivery.attempts.length).map
        fun n => entry (.ofNat n) publisher.endpoint body) := by
  obtain ⟨left, hleft⟩ :
      ∃ left, publisher.policy.maxAttempts.toNat = failures.val.toNat + left :=
    Nat.exists_eq_add_of_le (Nat.le_of_lt failures.toNat_lt)
  -- on the number of attempts that are still allowed
  induction left generalizing failures now log with
  | zero =>
      have := failures.toNat_lt
      omega
  | succ left ih =>
      rw [deliverFrom_eq, deliverBy]
      simp only [StateT.run_bind, logs failures, pure_bind, turn]
      have entered : (UInt32.ofNat failures.val.toNat) = failures.val := UInt32.ofNat_toNat
      generalize publisher.sequel _ _ _ _ _ _ = next
      cases next with
      | closed result finish =>
          simp only [StateT.run_pure, List.length_singleton, List.range'_one, List.map_singleton,
            entered]
      | again allowed start =>
          have reads := failures.toNat_add_one
          have run := @ih start ⟨_, allowed⟩ (log ++ [entry failures publisher.endpoint body])
            (by rw [List.length_append, turn, List.length_singleton]; exact reads.symm)
            (by dsimp only; omega)
          rw [List.length_append, turn, List.length_singleton] at run
          simp only [StateT.run_bind, run, pure_bind, StateT.run_pure, List.length_cons,
            List.range'_succ, List.map_cons, entered, List.append_assoc, List.singleton_append]

/-- Submits, and notes what the counter of attempts reads then. -/
def noteCounter (replies : Replies) : Submission (StateM (List UInt32)) :=
  fun failures _ _ readings => (replies readings.length, readings ++ [failures + 1])

/-- The counter reads the number of each attempt, and stays within the bound of the policy. -/
theorem deliverBy_noteCounter (event : Option Event) (tie : Nat → Branch) (body : String) :
    let delivery :=
      publisher.deliverFrom timer body replies event tie publisher.policy.noFailures now
    ∃ readings,
      (publisher.deliverBy timer (noteCounter replies) body event tie publisher.policy.noFailures
        now).run [] = (delivery, readings) ∧
      readings.map UInt32.toNat = List.range' 1 delivery.attempts.length ∧
      ∀ reading ∈ readings, reading.toNat ≤ publisher.policy.maxAttempts.toNat := by
  intro delivery
  have logs : Logs (noteCounter replies) replies fun failures _ _ => failures + 1 :=
    fun _ _ _ _ => rfl
  obtain ⟨last, course⟩ :
      ∃ last, Course publisher timer replies now event tie body 0 last delivery :=
    exists_course_deliverFrom event tie body publisher.policy.noFailures
  have length := course.length_attempts
  have bound := course.last_lt_maxAttempts
  have max_lt := publisher.policy.maxAttempts.toNat_lt
  have reads : ∀ n ∈ List.range (last + 1), (UInt32.ofNat n + 1).toNat = n + 1 := by
    intro n mem
    have := List.mem_range.1 mem
    rw [UInt32.toNat_add, UInt32.toNat_ofNat', UInt32.toNat_one]
    omega
  refine ⟨(List.range (last + 1)).map fun n => .ofNat n + 1, ?run, ?readings, ?bounded⟩
  case run =>
    rw [deliverBy_run logs _ [] rfl, List.range_eq_range', ← length]
    rfl
  case readings =>
    rw [length, List.map_map, List.range'_eq_map_range]
    exact List.map_congr_left fun n mem => (reads n mem).trans (Nat.add_comm n 1)
  case bounded =>
    intro reading mem
    obtain ⟨n, made, rfl⟩ := List.mem_map.1 mem
    have := List.mem_range.1 made
    rw [reads n made]
    omega

end Publisher

end NodeInventory
