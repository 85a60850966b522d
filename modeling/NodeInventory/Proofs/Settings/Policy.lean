import NodeInventory.Proofs.Registration.Rounds
import NodeInventory.Settings

/-!
# Settings and the policy made of them

Settings are checked once and put into a retry policy later, and the policy has bounds of its own.
Both draw the same lines: settings that are accepted go into the policy as they are, and those that
the policy would alter are refused.
-/

namespace NodeInventory

namespace RetryPolicy

variable {maxAttempts : UInt32} {delay : Duration} {factor : Binary64}

theorem of_maxAttempts_eq_iff :
    (of maxAttempts delay factor).maxAttempts = maxAttempts ↔ maxAttempts ≠ 0 := by
  constructor
  · intro kept zero
    have pos := (of maxAttempts delay factor).maxAttempts_pos
    rw [kept, zero] at pos
    exact absurd pos (by decide)
  · intro nonzero
    rw [of]
    exact if_neg nonzero

/-- What is not a number, infinite, negative or below one is altered, and nothing else. -/
theorem clampFactor_eq_self_iff :
    clampFactor factor = factor ↔ factor.isFinite = true ∧ factor.lt 1 = false := by
  constructor
  · intro kept
    rw [← kept]
    exact ⟨clampFactor_isFinite factor, clampFactor_not_lt_one factor⟩
  · rintro ⟨finite, not_lt⟩
    exact clampFactor_eq_self finite not_lt

end RetryPolicy

namespace Settings

variable {settings : Settings}

/-- The publisher that is made of the settings retries as they say.  Equal factors have equal bits:
the two zeros are not equal. -/
structure IsKept (settings : Settings) : Prop where
  maxAttempts : settings.publisher.policy.maxAttempts = settings.maxAttempts
  delay : settings.publisher.policy.delay = settings.retryDelay
  factor : settings.publisher.policy.factor = settings.backoffFactor

theorem isKept_iff : IsKept settings ↔ settings.maxAttempts ≠ 0 ∧
    settings.backoffFactor.isFinite = true ∧ settings.backoffFactor.lt 1 = false := by
  rw [← RetryPolicy.clampFactor_eq_self_iff, ← RetryPolicy.of_maxAttempts_eq_iff]
  exact ⟨fun kept => ⟨kept.maxAttempts, kept.factor⟩, fun ⟨bound, factor⟩ => ⟨bound, rfl, factor⟩⟩

/-! ## Checks -/

/-- A check without a fault leaves it to the checks that follow. -/
theorem check_eq_none_iff {fails : Prop} [Decidable fails] {fault : SettingsFault}
    {later : Option SettingsFault} :
    (if fails then some fault else later) = none ↔ ¬fails ∧ later = none := by
  by_cases h : fails
  · rw [if_pos h]
    exact iff_of_false nofun fun both => both.1 h
  · rw [if_neg h]
    exact (and_iff_right h).symm

/-- Settings are without a fault where their address has a scheme, their policy is as they say, and
the times that have to pass are not zero. -/
theorem fault?_eq_none_iff :
    settings.fault? = none ↔ isHttp settings.trimmedAddress = true ∧ IsKept settings ∧
      settings.commandTimeout.isZero = false ∧ settings.interval.any Duration.isZero = false := by
  -- a scheme is not empty, so the first check follows from the second
  have filled : isHttp settings.trimmedAddress = true → ¬settings.trimmedAddress = [] := by
    intro http empty
    rw [empty] at http
    cases http
  simp only [fault?, check_eq_none_iff, isKept_iff, Bool.not_eq_true, Bool.not_eq_false',
    Bool.or_eq_false_iff, and_true, ne_eq]
  constructor
  · rintro ⟨-, http, attempts, factor, timeout, interval⟩
    exact ⟨http, ⟨attempts, factor⟩, timeout, interval⟩
  · rintro ⟨http, ⟨attempts, factor⟩, timeout, interval⟩
    exact ⟨filled http, http, attempts, factor, timeout, interval⟩

theorem validate_eq_ok_iff : settings.validate = .ok () ↔ settings.fault? = none := by
  rw [validate]
  cases settings.fault? with
  | none => exact iff_of_true rfl rfl
  | some fault => exact iff_of_false nofun nofun

theorem exists_reason_of_fault (faulty : settings.fault? ≠ none) :
    ∃ reason, settings.validate = .error (.settings reason) := by
  obtain ⟨fault, eq⟩ := Option.ne_none_iff_exists'.1 faulty
  refine ⟨fault.message, ?_⟩
  rw [validate, eq]

/-- Accepted settings go into the policy unaltered, and a registration starts with their interval.
Settings that the policy would alter are refused; else only the address and the times can be why. -/
theorem validate_agrees_with_policy (settings : Settings) :
    (settings.validate = .ok () → IsKept settings ∧
      ∀ period, settings.interval = some period → 0 < period.nanos ∧
        ∀ service world event ties count used now, ∃ registered,
          Service.periodic service world period event ties count used now = .ok registered) ∧
    (settings.publisher.policy.maxAttempts ≠ settings.maxAttempts ∨
        settings.publisher.policy.factor ≠ settings.backoffFactor →
      ∃ reason, settings.validate = .error (.settings reason)) ∧
    (settings.validate = .ok () ↔ isHttp settings.trimmedAddress = true ∧ IsKept settings ∧
      settings.commandTimeout.isZero = false ∧
      settings.interval.any Duration.isZero = false) := by
  have accepted : settings.validate = .ok () ↔ _ := validate_eq_ok_iff.trans fault?_eq_none_iff
  refine ⟨fun valid => ?_, fun altered => ?_, accepted⟩
  · obtain ⟨-, kept, -, interval⟩ := accepted.1 valid
    refine ⟨kept, fun period eq => ?_⟩
    rw [eq] at interval
    have pos : 0 < period.nanos := Nat.pos_of_ne_zero (of_decide_eq_false interval)
    exact ⟨pos, fun service world event ties count used now =>
      ⟨_, service.periodic_of_pos world pos event ties count used now⟩⟩
  · refine exists_reason_of_fault fun faultless => ?_
    obtain ⟨-, kept, -⟩ := fault?_eq_none_iff.1 faultless
    exact altered.elim (· kept.maxAttempts) (· kept.factor)

/-- The defaults are accepted and kept, and refused with a factor that is not a number. -/
theorem validate_agrees_with_policy_of_default :
    Settings.default.validate = .ok () ∧ IsKept Settings.default ∧
      { Settings.default with backoffFactor := .nan }.publisher.policy.factor ≠ .nan ∧
      ∃ reason, { Settings.default with backoffFactor := .nan }.validate =
        .error (.settings reason) := by
  have valid : Settings.default.validate = .ok () :=
    validate_eq_ok_iff.2 (by decide +kernel)
  have altered : { Settings.default with backoffFactor := .nan }.publisher.policy.factor ≠ .nan :=
    Binary64.ne_nan_of_isFinite (RetryPolicy.factor_isFinite _)
  exact ⟨valid, ((validate_agrees_with_policy _).1 valid).1, altered,
    (validate_agrees_with_policy _).2.1 (.inr altered)⟩

end Settings

end NodeInventory
