import NodeInventory.Proofs.Number.Rounding
import NodeInventory.Retry

/-!
# The waits of a policy

However a delay and a factor are chosen, a wait lies between the delay and a minute, or is the delay
where that is longer (`afterFailure_bounded`).  Where both are whole numbers, floating point shows
nowhere: the wait is the delay times a power of the factor, up to the cap
(`afterFailure_of_whole_factor`).
-/

namespace NodeInventory.Binary64

attribute [local irreducible] Number.one Number.overflow

/-- One is the only finite number that is neither below nor above one. -/
theorem eq_one_of_not_lt {x : Binary64} (finite : x.isFinite = true) (not_lt : x.lt 1 = false)
    (not_gt : Binary64.lt 1 x = false) : x = 1 := by
  have number : x ≠ .nan := Binary64.ne_nan_of_isFinite finite
  have one_number : (1 : Binary64) ≠ .nan := Binary64.ne_nan_of_isFinite Binary64.one_isFinite
  have rank_one : (1 : Binary64).rank = (1 * Number.one : Nat) := Binary64.rank_ofNat (by decide)
  have rank : x.rank = (1 * Number.one : Nat) := by
    simp [Binary64.lt, number, one_number, rank_one] at not_lt not_gt
    omega
  have eq : (1 : Binary64) = .finite false (1 * Number.one) _ := Binary64.ofNat_of_le (by decide)
  have pos : 0 < Number.one := Number.one_pos
  cases x with
  | nan => cases finite
  | infinite => cases finite
  | finite negative u =>
      cases negative with
      | true =>
          have rank : -(u : Int) = (1 * Number.one : Nat) := rank
          omega
      | false =>
          have same : u = 1 * Number.one := Int.ofNat.inj rank
          subst same
          exact eq.symm

end NodeInventory.Binary64

namespace NodeInventory.RetryPolicy

attribute [local irreducible] Number.one Number.overflow

variable {policy : RetryPolicy} {failures : Nat}

/-! ## Decisions -/

theorem afterFailure_eq_exhausted_iff :
    policy.afterFailure failures = .exhausted ↔ policy.maxAttempts.toNat ≤ failures := by
  refine ⟨maxAttempts_le_of_exhausted, fun done => ?_⟩
  rw [afterFailure, if_pos done]

theorem afterFailure_of_lt (left : failures < policy.maxAttempts.toNat) :
    policy.afterFailure failures =
      .retry (max (.ofMillis (policy.grownMillis failures)) policy.delay) := by
  rw [afterFailure, if_neg (Nat.not_le.2 left)]

/-- A minute, in milliseconds: there is no growth beyond. -/
def cap : Binary64.Cap := ⟨60000, by decide, by decide⟩

theorem truncate_min_cap {n : Nat} {x : Binary64} (known : Binary64.UpTo cap n x) :
    (x.min 60000).truncate (UInt64.size - 1) = Nat.min n 60000 := by
  have le : cap.value ≤ UInt64.size - 1 := (by decide : 60000 ≤ UInt64.size - 1)
  change (x.min (.ofNat cap.value)).truncate _ = Nat.min n cap.value
  exact known.truncate_min le

theorem grownMillis_le (policy : RetryPolicy) (failures : Nat) :
    policy.grownMillis failures ≤ 60000 :=
  Binary64.truncate_min_le cap _ _

theorem ofMillis_grownMillis_le (policy : RetryPolicy) (failures : Nat) :
    Duration.ofMillis (policy.grownMillis failures) ≤ .ofSecs 60 := by
  have le := grownMillis_le policy failures
  change policy.grownMillis failures * 1000000 ≤ 60 * 1000000000
  omega

theorem max_ofMillis_eq_self {delay : Duration} {ms : Nat} (le : ms ≤ delay.millis) :
    max (.ofMillis ms) delay = delay := by
  have nanos : ms * 1000000 ≤ delay.nanos := by
    rw [Duration.millis] at le
    omega
  exact congrArg Duration.mk (Nat.max_eq_right nanos)

/-! ## Constant waits -/

/-- What is not above one, or not finite, lets nothing grow. -/
theorem clampFactor_eq_one {factor : Binary64}
    (flat : factor.isFinite = false ∨ Binary64.lt 1 factor = false) : clampFactor factor = 1 := by
  rcases flat with infinite | not_gt
  · rw [clampFactor, infinite]
    rfl
  · -- not below one after it is clamped, nor above it
    refine Binary64.eq_one_of_not_lt (clampFactor_isFinite factor)
      (clampFactor_not_lt_one factor) ?_
    rw [clampFactor]
    split
    next finite =>
      rw [Binary64.max, if_neg (Binary64.ne_nan_of_isFinite finite),
        if_neg (Binary64.ne_nan_of_isFinite Binary64.one_isFinite)]
      split
      next => exact Binary64.lt_self 1
      next => exact not_gt
    next => exact Binary64.lt_self 1

/-- Without growth there is nothing to wait for beyond the delay. -/
theorem grownMillis_le_millis (flat : policy.factor.pow (growth failures) = 1) :
    policy.grownMillis failures ≤ policy.delay.millis := by
  by_cases short : policy.delay.millis ≤ 60000
  · have product : Binary64.ofNat policy.delay.millis * 1 = .ofNat policy.delay.millis := by
      have small : policy.delay.millis * 1 ≤ Nat.pow 2 53 := by
        rw [Nat.mul_one]
        exact short.trans cap.le
      exact (Binary64.ofNat_mul_ofNat (short.trans cap.le) (by decide) small).trans
        (congrArg Binary64.ofNat (Nat.mul_one _))
    have known : Binary64.UpTo cap policy.delay.millis (.ofNat policy.delay.millis) := .exact short
    rw [grownMillis, flat, product, truncate_min_cap known]
    exact Nat.min_le_left ..
  · exact (grownMillis_le policy failures).trans (Nat.le_of_not_le short)

/-- A policy allows one attempt at least and as many as it is given.  Each wait but the last lies
between its delay and a minute, or is the delay if that is longer, and the delay to the nanosecond
after the first failure and for a factor that lets nothing grow. -/
theorem afterFailure_bounded (maxAttempts : UInt32) (delay : Duration) (factor : Binary64)
    (failures : Nat) :
    ((of maxAttempts delay factor).afterFailure failures = .exhausted ↔
      max 1 maxAttempts.toNat ≤ failures) ∧
    (failures < max 1 maxAttempts.toNat → ∃ wait,
      (of maxAttempts delay factor).afterFailure failures = .retry wait ∧
      delay ≤ wait ∧ wait ≤ max delay (.ofSecs 60) ∧
      (failures ≤ 1 ∨ factor.isFinite = false ∨ Binary64.lt 1 factor = false → wait = delay)) := by
  constructor
  · rw [afterFailure_eq_exhausted_iff, of_maxAttempts_toNat]
  · intro left
    rw [← of_maxAttempts_toNat maxAttempts delay factor] at left
    refine ⟨_, afterFailure_of_lt left, ?_, ?_, fun constant => ?_⟩
    · exact Nat.le_max_right _ _
    · exact Nat.max_le.2 ⟨Nat.le_trans (ofMillis_grownMillis_le _ _) (Nat.le_max_right ..),
        Nat.le_max_left ..⟩
    · refine max_ofMillis_eq_self (grownMillis_le_millis ?_)
      rcases constant with early | flat
      · have first : growth failures = 0 := by
          rw [growth, Nat.sub_eq_zero_of_le early]
          rfl
        rw [first]
        exact Binary64.pow_zero_eq_one _
      · have one : (of maxAttempts delay factor).factor = 1 := clampFactor_eq_one flat
        rw [one]
        exact Binary64.one_pow_eq_one _

/-- A delay of one and a half microseconds stays as it is, under a factor that is not a number. -/
theorem afterFailure_bounded_of_nan :
    3 < max 1 (5 : UInt32).toNat ∧
      (of 5 ⟨1500⟩ .nan).afterFailure 3 = .retry ⟨1500⟩ := by
  obtain ⟨wait, decision, -, -, constant⟩ :=
    (afterFailure_bounded 5 ⟨1500⟩ .nan 3).2 (by decide)
  refine ⟨by decide, ?_⟩
  rw [decision, constant (.inr (.inl rfl))]

/-! ## Whole factors -/

/-- The wait after so many failures, in milliseconds: the delay times a power of the factor up to a
minute, and the delay at least. -/
def backoffMillis (ms k failures : Nat) : Nat := max ms (min (ms * k ^ (failures - 1)) 60000)

variable {ms k : Nat}

theorem clampFactor_whole (grows : 1 ≤ k) (exact : Number.Representable (k * Number.one)) :
    clampFactor (.finite false (k * Number.one) exact) = .finite false (k * Number.one) exact := by
  refine clampFactor_eq_self rfl ?_
  have rank_one : (1 : Binary64).rank = (1 * Number.one : Nat) := Binary64.rank_ofNat (by decide)
  have le : 1 * Number.one ≤ k * Number.one := Nat.mul_le_mul_right _ grows
  have not_lt : ¬(Binary64.finite false (k * Number.one) exact).rank < (1 : Binary64).rank := by
    rw [rank_one, Int.not_lt]
    exact Int.ofNat_le.2 le
  rw [Binary64.lt, decide_eq_false not_lt, Bool.and_false]

/-- A whole delay, grown by a whole factor, is known up to a minute. -/
theorem upTo_grown (delayed : 1 ≤ ms) (grows : 1 ≤ k)
    (exact : Number.Representable (k * Number.one)) (e : Nat) :
    Binary64.UpTo cap (ms * k ^ e)
      (Binary64.ofNat ms * Binary64.pow (.finite false (k * Number.one) exact) e) := by
  have factor : Binary64.UpTo cap k (.finite false (k * Number.one) exact) :=
    Binary64.upTo_whole cap exact
  exact (Binary64.upTo_ofNat cap ms).mul delayed (pow_pos grows e) (factor.pow grows e)

theorem grownMillis_of_whole_factor (maxAttempts : UInt32) (delayed : 1 ≤ ms) (grows : 1 ≤ k)
    (exact : Number.Representable (k * Number.one)) (failures : Nat) :
    (of maxAttempts (.ofMillis ms) (.finite false (k * Number.one) exact)).grownMillis failures =
      min (ms * k ^ growth failures) 60000 := by
  have factor : (of maxAttempts (.ofMillis ms) (.finite false (k * Number.one) exact)).factor =
      .finite false (k * Number.one) exact := clampFactor_whole grows exact
  have delay : (of maxAttempts (.ofMillis ms) (.finite false (k * Number.one) exact)).delay.millis =
      ms := Duration.millis_ofMillis ms
  rw [grownMillis, factor, delay]
  exact truncate_min_cap (upTo_grown delayed grows exact _)

/-- A factor above one leads to the cap in sixteen steps. -/
theorem cap_le_of_two_le (delayed : 1 ≤ ms) (grows : 2 ≤ k) {e : Nat} (late : 16 ≤ e) :
    60000 ≤ ms * k ^ e := by
  calc 60000 ≤ 2 ^ 16 := by decide
    _ ≤ k ^ 16 := Nat.pow_le_pow_left grows 16
    _ ≤ k ^ e := Nat.pow_le_pow_right (by omega) late
    _ ≤ ms * k ^ e := Nat.le_mul_of_pos_left _ delayed

/-- The bound on exponents is far behind the cap. -/
theorem min_pow_growth (delayed : 1 ≤ ms) (grows : 1 ≤ k) (failures : Nat) :
    min (ms * k ^ growth failures) 60000 = min (ms * k ^ (failures - 1)) 60000 := by
  rcases Nat.eq_or_lt_of_le grows with rfl | grows
  · rw [one_pow, one_pow]
  by_cases within : failures - 1 ≤ 0x7FFFFFFF
  · rw [growth, Nat.min_eq_left within]
  · have late : 16 ≤ growth failures := by
      rw [growth]
      omega
    rw [Nat.min_eq_right (cap_le_of_two_le delayed grows late),
      Nat.min_eq_right (cap_le_of_two_le delayed grows (by omega))]

theorem backoffMillis_mono (grows : 1 ≤ k) : Monotone (backoffMillis ms k) := by
  intro m n le
  have power : k ^ (m - 1) ≤ k ^ (n - 1) := Nat.pow_le_pow_right grows (by omega)
  have product : ms * k ^ (m - 1) ≤ ms * k ^ (n - 1) := Nat.mul_le_mul_left ms power
  rw [backoffMillis, backoffMillis]
  omega

theorem backoffMillis_le (ms k failures : Nat) : backoffMillis ms k failures ≤ max ms 60000 := by
  rw [backoffMillis]
  omega

/-- The cap is reached late where there is growth towards it. -/
theorem backoffMillis_eq_max (delayed : 1 ≤ ms) (towards : 2 ≤ k ∨ 60000 ≤ ms) {failures : Nat}
    (late : 17 ≤ failures) : backoffMillis ms k failures = max ms 60000 := by
  rw [backoffMillis]
  rcases towards with grows | long
  · have reached : 60000 ≤ ms * k ^ (failures - 1) := cap_le_of_two_le delayed grows (by omega)
    rw [Nat.min_eq_right reached]
  · omega

/-- Without growth the wait stays what it is. -/
theorem backoffMillis_one (ms failures : Nat) : backoffMillis ms 1 failures = ms := by
  rw [backoffMillis, one_pow]
  omega

theorem afterFailure_whole (maxAttempts : UInt32) (delayed : 1 ≤ ms) (grows : 1 ≤ k)
    (exact : Number.Representable (k * Number.one)) {n : Nat}
    (left : n < max 1 maxAttempts.toNat) :
    (of maxAttempts (.ofMillis ms) (.finite false (k * Number.one) exact)).afterFailure n =
      .retry (.ofMillis (backoffMillis ms k n)) := by
  rw [← of_maxAttempts_toNat maxAttempts (.ofMillis ms) (.finite false (k * Number.one) exact)]
    at left
  rw [afterFailure_of_lt left, grownMillis_of_whole_factor maxAttempts delayed grows exact,
    min_pow_growth delayed grows]
  have longer (a b : Nat) : max (Duration.ofMillis a) (.ofMillis b) = .ofMillis (max b a) := by
    refine congrArg Duration.mk ?_
    simp only [Duration.ofMillis_nanos]
    omega
  exact congrArg RetryDecision.retry (longer _ ms)

/-- Under a whole factor every wait is, to the nanosecond, what the formula says.  The waits never
get shorter, and stay at the cap once they have reached it.  They reach it within seventeen failures
under a factor from two on, or if the delay itself is no less; else they stay at the delay. -/
theorem afterFailure_of_whole_factor (maxAttempts : UInt32) (delayed : 1 ≤ ms) (grows : 1 ≤ k)
    (exact : Number.Representable (k * Number.one)) :
    (∀ n, n < max 1 maxAttempts.toNat →
      (of maxAttempts (.ofMillis ms) (.finite false (k * Number.one) exact)).afterFailure n =
        .retry (.ofMillis (backoffMillis ms k n))) ∧
    Monotone (backoffMillis ms k) ∧
    (∀ m n, m ≤ n → backoffMillis ms k m = max ms 60000 → backoffMillis ms k n = max ms 60000) ∧
    (2 ≤ k ∨ 60000 ≤ ms → ∀ n, 17 ≤ n → backoffMillis ms k n = max ms 60000) ∧
    (k = 1 → ∀ n, backoffMillis ms k n = ms) := by
  refine ⟨fun n left => afterFailure_whole maxAttempts delayed grows exact left,
    backoffMillis_mono grows, fun m n le reached => ?_,
    fun towards n late => backoffMillis_eq_max delayed towards late, ?_⟩
  · exact Nat.le_antisymm (backoffMillis_le ms k n) (reached ▸ backoffMillis_mono grows le)
  · rintro rfl n
    exact backoffMillis_one ms n

/-- Seven milliseconds grow by three: to 567 after five failures, and to the cap after eleven. -/
theorem afterFailure_of_threefold :
    1 ≤ 7 ∧ 1 ≤ 3 ∧ Number.Representable (3 * Number.one) ∧
      (of 12 (.ofMillis 7) (.finite false (3 * Number.one)
        (Number.representable_whole (by decide)))).afterFailure 5 = .retry (.ofMillis 567) ∧
      (of 12 (.ofMillis 7) (.finite false (3 * Number.one)
        (Number.representable_whole (by decide)))).afterFailure 11 = .retry (.ofMillis 60000) := by
  have exact : Number.Representable (3 * Number.one) := Number.representable_whole (by decide)
  have delayed : 1 ≤ 7 := by decide
  obtain ⟨waits, -⟩ := afterFailure_of_whole_factor 12 delayed (by decide) exact
  exact ⟨delayed, by decide, exact, waits 5 (by decide), waits 11 (by decide)⟩

/-- A second does not grow to the cap under a factor of one, in however many attempts. -/
theorem afterFailure_of_factor_one :
    (of 4294967295 (.ofMillis 1000) 1).afterFailure 4294967294 = .retry (.ofMillis 1000) ∧
      ¬∃ n, n < max 1 (4294967295 : UInt32).toNat ∧
        (of 4294967295 (.ofMillis 1000) 1).afterFailure n = .retry (.ofMillis 60000) := by
  have factor : (1 : Binary64) = .finite false (1 * Number.one) _ :=
    Binary64.ofNat_of_le (by decide)
  have waits (n : Nat) (left : n < max 1 (4294967295 : UInt32).toNat) :
      (of 4294967295 (.ofMillis 1000) 1).afterFailure n = .retry (.ofMillis 1000) := by
    rw [factor, afterFailure_whole _ (by decide) (by decide) _ left, backoffMillis_one]
  refine ⟨waits 4294967294 (by decide), ?_⟩
  rintro ⟨n, left, capped⟩
  rw [waits n left] at capped
  revert capped
  decide

end NodeInventory.RetryPolicy
