import Mathlib.Algebra.Order.Ring.Nat
import Mathlib.Data.Nat.Log
import Mathlib.Tactic.GCongr
import Mathlib.Tactic.Ring
import NodeInventory.Number.Binary64

/-!
# Whole numbers in floating point

Rounding keeps what is representable, and never falls below it.  So a product of whole numbers is
exact as long as it is small, and large at any rate where it is not: whatever else is lost, it is
known up to a cap (`UpTo`), and so are products and powers.
-/

namespace NodeInventory.Number

/-! ## Rounding -/

/-- A significand of at most 53 bits is representable far beyond the whole numbers. -/
theorem representable_shifted {m s : Nat} (le : m ≤ Nat.pow 2 53) (range : 53 + s < width) :
    Representable (m * Nat.pow 2 s) := by
  refine ⟨?_, dvd_shifted le s⟩
  calc m * Nat.pow 2 s ≤ Nat.pow 2 53 * Nat.pow 2 s := Nat.mul_le_mul_right _ le
    _ = Nat.pow 2 (53 + s) := by simp only [Nat.pow_eq, Nat.pow_add]
    _ < overflow := two_pow_lt_overflow range

theorem one_pos : 0 < one := by
  unfold one
  generalize 1074 = k
  exact Nat.two_pow_pos k

/-- Whole numbers of at most 53 bits are representable. -/
theorem representable_whole {n : Nat} (le : n ≤ Nat.pow 2 53) : Representable (n * one) := by
  have range : 53 + 1074 < width := by decide
  unfold one
  generalize 1074 = s at range ⊢
  exact representable_shifted le range

-- powers of two as large as these are not to be worked out
attribute [local irreducible] one overflow

/-- What is representable is not rounded. -/
theorem nearest_mul_right {u q : Nat} (h : gap u ∣ u) (hq : 0 < q) : nearest (u * q) q = u := by
  obtain ⟨m, eq⟩ := h
  have quotient : u * q / q = u := Nat.mul_div_cancel u hq
  have whole : u * q = m * (q * gap u) := by
    conv_lhs => rw [eq]
    ring
  have pos : 0 < q * gap u := Nat.mul_pos hq (Nat.two_pow_pos _)
  calc nearest (u * q) q
      = roundDiv (u * q) (q * gap u) * gap u := by simp only [nearest, quotient, gap]
    _ = m * gap u := by rw [whole, roundDiv_mul_right m pos]
    _ = u := by rw [Nat.mul_comm]; exact eq.symm

/-- Significands of more than 52 bits are not below the least one. -/
theorem leastSignificand_le {u : Nat} (h : 0 < spacing u) :
    leastSignificand * gap u ≤ u := by
  have nonzero : u ≠ 0 := by
    rintro rfl
    exact absurd h (by decide)
  have log : u.log2 = 52 + spacing u := by
    rw [spacing] at h ⊢
    omega
  calc leastSignificand * gap u
      = 2 ^ (52 + spacing u) := by rw [gap, Nat.pow_eq, pow_add]; rfl
    _ = 2 ^ u.log2 := by rw [log]
    _ ≤ u := Nat.log2_self_le nonzero

theorem lt_gap_mul (u : Nat) : u < 2 * leastSignificand * gap u := by
  have log : u.log2 + 1 ≤ 53 + spacing u := by
    rw [spacing]
    omega
  calc u < 2 ^ (u.log2 + 1) := Nat.lt_log2_self
    _ ≤ 2 ^ (53 + spacing u) := Nat.pow_le_pow_right (by decide) log
    _ = 2 * leastSignificand * gap u := by rw [gap, Nat.pow_eq, pow_add]; rfl

theorem spacing_mono {u v : Nat} (le : u ≤ v) : spacing u ≤ spacing v := by
  rw [spacing, spacing]
  have : u.log2 ≤ v.log2 := by
    rw [Nat.log2_eq_log_two, Nat.log2_eq_log_two]
    exact Nat.log_mono_right le
  omega

/-- Rounding does not fall below what is representable. -/
theorem le_nearest {u p q : Nat} (h : gap u ∣ u) (hq : 0 < q) (le : u * q ≤ p) :
    u ≤ nearest p q := by
  have below : u ≤ p / q := (Nat.le_div_iff_mul_le hq).2 le
  have floor : p / q / gap (p / q) * gap (p / q) ≤ nearest p q := by
    rw [nearest, Nat.div_div_eq_div_mul]
    exact Nat.mul_le_mul_right _ (le_roundDiv ..)
  refine Nat.le_trans ?_ floor
  rcases Nat.eq_or_lt_of_le (spacing_mono below) with same | wider
  · -- as fine as at `u`, which is a multiple of the gap
    have gaps : gap (p / q) = gap u := by rw [gap, gap, same]
    obtain ⟨m, eq⟩ := h
    rw [gaps]
    calc u = u / gap u * gap u := (Nat.div_mul_cancel ⟨m, eq⟩).symm
      _ ≤ p / q / gap u * gap u := Nat.mul_le_mul_right _ (Nat.div_le_div_right below)
  · -- coarser, and so a power of two away
    have large : leastSignificand ≤ p / q / gap (p / q) :=
      (Nat.le_div_iff_mul_le (Nat.two_pow_pos _)).2 (leastSignificand_le (by omega))
    have gaps : 2 * gap u ≤ gap (p / q) := by
      calc 2 * gap u = 2 ^ (spacing u + 1) := by rw [gap, Nat.pow_eq, pow_succ, Nat.mul_comm]
        _ ≤ 2 ^ spacing (p / q) := Nat.pow_le_pow_right (by decide) wider
    calc u ≤ 2 * leastSignificand * gap u := (lt_gap_mul u).le
      _ = leastSignificand * (2 * gap u) := by ring
      _ ≤ p / q / gap (p / q) * gap (p / q) := Nat.mul_le_mul large gaps

theorem roundDiv_mono (q : Nat) {p p' : Nat} (le : p ≤ p') : roundDiv p q ≤ roundDiv p' q := by
  rcases Nat.eq_or_lt_of_le (Nat.div_le_div_right (c := q) le) with same | less
  · -- the remainders are in order, and so are the decisions
    have rests : p % q ≤ p' % q := by
      have split := Nat.div_add_mod p q
      have split' := Nat.div_add_mod p' q
      rw [same] at split
      omega
    simp only [roundDiv, same]
    split <;> split <;> omega
  · exact (roundDiv_le p q).trans (Nat.le_trans less (le_roundDiv p' q))

/-- Rounding keeps the order. -/
theorem nearest_mono {p p' q : Nat} (hq : 0 < q) (le : p ≤ p') : nearest p q ≤ nearest p' q := by
  have quotients : p / q ≤ p' / q := Nat.div_le_div_right le
  rcases Nat.eq_or_lt_of_le (spacing_mono quotients) with same | wider
  · simp only [nearest, same]
    exact Nat.mul_le_mul_right _ (roundDiv_mono _ le)
  · -- a power of two lies between the two
    have pos : 0 < spacing (p' / q) := by omega
    have power : leastSignificand * gap (p' / q) * q ≤ p' :=
      (Nat.le_div_iff_mul_le hq).1 (leastSignificand_le pos)
    have exact_power : gap (leastSignificand * gap (p' / q)) ∣ leastSignificand * gap (p' / q) :=
      dvd_shifted (by decide) _
    calc nearest p q ≤ 2 * leastSignificand * gap (p / q) := by
          refine Nat.mul_le_mul_right _ ((roundDiv_le ..).trans ?_)
          rw [← Nat.div_div_eq_div_mul]
          exact Nat.succ_le_of_lt ((Nat.div_lt_iff_lt_mul (Nat.two_pow_pos _)).2 (lt_gap_mul _))
      _ = leastSignificand * (2 * gap (p / q)) := by ring
      _ ≤ leastSignificand * gap (p' / q) := by
          refine Nat.mul_le_mul_left _ ?_
          calc 2 * gap (p / q) = 2 ^ (spacing (p / q) + 1) := by
                rw [gap, Nat.pow_eq, pow_succ, Nat.mul_comm]
            _ ≤ gap (p' / q) := Nat.pow_le_pow_right (by decide) wider
      _ ≤ nearest p' q := le_nearest exact_power hq power

/-- Factors may be cut at a cap where their product is. -/
theorem le_min_mul_min {m n cap : Nat} (hm : 0 < m) (hn : 0 < n) (le : cap ≤ m * n) :
    cap ≤ min m cap * min n cap := by
  rcases Nat.eq_zero_or_pos cap with rfl | pos
  · exact Nat.zero_le _
  rcases Nat.le_total m cap with hm' | hm'
  · rcases Nat.le_total n cap with hn' | hn'
    · rwa [Nat.min_eq_left hm', Nat.min_eq_left hn']
    · rw [Nat.min_eq_right hn']
      exact Nat.le_mul_of_pos_left cap (Nat.lt_min.2 ⟨hm, pos⟩)
  · rw [Nat.min_eq_right hm']
    exact Nat.le_mul_of_pos_right cap (Nat.lt_min.2 ⟨hn, pos⟩)

end NodeInventory.Number

namespace NodeInventory.Binary64

open Number

attribute [local irreducible] Number.one overflow

/-! ## Whole numbers -/

theorem ofRatio_eq {negative : Bool} {p q u : Nat} (eq : nearest p q = u) (h : Representable u) :
    ofRatio negative p q = .finite negative u h := by
  subst eq
  exact dif_pos h.1

/-- Small whole numbers are not rounded. -/
theorem ofNat_of_le {n : Nat} (le : n ≤ Nat.pow 2 53) :
    ofNat n = .finite false (n * Number.one) (representable_whole le) :=
  ofRatio_eq (nearest_one (representable_whole le).2) _

theorem ofNat_ne_nan {n : Nat} (le : n ≤ Nat.pow 2 53) : ofNat n ≠ .nan := by
  rw [ofNat_of_le le]
  exact nofun

theorem rank_ofNat {n : Nat} (le : n ≤ Nat.pow 2 53) :
    (ofNat n).rank = (n * Number.one : Nat) := by
  rw [ofNat_of_le le]
  rfl

theorem ofNat_mul_ofNat {m n : Nat} (hm : m ≤ Nat.pow 2 53) (hn : n ≤ Nat.pow 2 53)
    (le : m * n ≤ Nat.pow 2 53) : ofNat m * ofNat n = ofNat (m * n) := by
  have exact_product : nearest (m * Number.one * (n * Number.one)) Number.one =
      m * n * Number.one := by
    rw [show m * Number.one * (n * Number.one) = m * n * Number.one * Number.one by ring]
    exact nearest_mul_right (representable_whole le).2 Number.one_pos
  rw [ofNat_of_le hm, ofNat_of_le hn, ofNat_of_le le]
  exact ofRatio_eq exact_product _

/-- A whole number or more, infinity included. -/
def AtLeast (n : Nat) : Binary64 → Prop
  | .finite false u _ => n * Number.one ≤ u
  | .infinite false => True
  | _ => False

variable {m n l : Nat} {x y : Binary64}

theorem AtLeast.mono (large : AtLeast n x) (le : m ≤ n) : AtLeast m x := by
  match x with
  | .finite false u _ => exact Nat.le_trans (Nat.mul_le_mul_right _ le) large
  | .infinite false => trivial

/-- Rounding does not fall below a whole number that is not rounded itself. -/
theorem atLeast_ofRatio {p q : Nat} (sharp : gap (l * Number.one) ∣ l * Number.one) (hq : 0 < q)
    (le : l * Number.one * q ≤ p) : AtLeast l (ofRatio false p q) := by
  rw [ofRatio]
  split
  · exact le_nearest sharp hq le
  · trivial

theorem atLeast_ofNat (hl : l ≤ Nat.pow 2 53) (le : l ≤ n) : AtLeast l (ofNat n) :=
  atLeast_ofRatio (representable_whole hl).2 Nat.zero_lt_one
    (by rw [Nat.mul_one]; exact Nat.mul_le_mul_right _ le)

theorem AtLeast.mul (hm : 0 < m) (hn : 0 < n) (large : AtLeast m x) (large' : AtLeast n y)
    (le : l ≤ m * n) (sharp : gap (l * Number.one) ∣ l * Number.one) : AtLeast l (x * y) := by
  have pos {k u : Nat} (hk : 0 < k) (le : k * Number.one ≤ u) : u ≠ 0 :=
    Nat.pos_iff_ne_zero.1 (Nat.lt_of_lt_of_le (Nat.mul_pos hk Number.one_pos) le)
  match x, y with
  | .finite false a _, .finite false b _ =>
      refine atLeast_ofRatio sharp Number.one_pos ?_
      calc l * Number.one * Number.one ≤ m * n * Number.one * Number.one := by gcongr
        _ = m * Number.one * (n * Number.one) := by ring
        _ ≤ a * b := Nat.mul_le_mul large large'
  | .infinite false, .infinite false => trivial
  | .infinite false, .finite false u _ =>
      have product : (.infinite false : Binary64) * .finite false u ‹_› = .infinite false :=
        if_neg (pos hn large')
      rw [product]
      trivial
  | .finite false u _, .infinite false =>
      have product : (.finite false u ‹_› : Binary64) * .infinite false = .infinite false :=
        if_neg (pos hm large)
      rw [product]
      trivial

/-! ## Numbers up to a cap -/

/-- A whole number up to which numbers are told apart. -/
structure Cap where
  value : Nat
  pos : 0 < value
  le : value ≤ Nat.pow 2 53

/-- A number that stands for a whole one up to a cap: it is this one, or they both reach the cap. -/
inductive UpTo (cap : Cap) : Nat → Binary64 → Prop
  | exact {n : Nat} (le : n ≤ cap.value) : UpTo cap n (ofNat n)
  | beyond {n : Nat} {x : Binary64} (le : cap.value ≤ n) (large : AtLeast cap.value x) :
      UpTo cap n x

variable {cap : Cap}

theorem upTo_ofNat (cap : Cap) (n : Nat) : UpTo cap n (ofNat n) := by
  rcases Nat.le_total n cap.value with le | ge
  · exact .exact le
  · exact .beyond ge (atLeast_ofNat cap.le ge)

theorem upTo_whole (cap : Cap) (h : Representable (n * Number.one)) :
    UpTo cap n (.finite false (n * Number.one) h) := by
  rcases Nat.le_total n cap.value with le | ge
  · have exactly : UpTo cap n (ofNat n) := .exact le
    rwa [ofNat_of_le (le.trans cap.le)] at exactly
  · exact .beyond ge (Nat.mul_le_mul_right _ ge)

theorem UpTo.eq_ofNat (known : UpTo cap n x) (lt : n < cap.value) : x = ofNat n := by
  cases known with
  | exact => rfl
  | beyond le => exact absurd lt (Nat.not_lt.2 le)

theorem UpTo.atLeast (known : UpTo cap n x) : AtLeast (Nat.min n cap.value) x := by
  cases known with
  | exact => exact atLeast_ofNat (Nat.le_trans (Nat.min_le_right ..) cap.le) (Nat.min_le_left ..)
  | beyond le large => exact large.mono (Nat.min_le_right ..)

theorem UpTo.mul (hm : 0 < m) (hn : 0 < n) (known : UpTo cap m x) (known' : UpTo cap n y) :
    UpTo cap (m * n) (x * y) := by
  by_cases reached : cap.value ≤ m * n
  · refine .beyond reached ?_
    exact known.atLeast.mul (Nat.lt_min.2 ⟨hm, cap.pos⟩) (Nat.lt_min.2 ⟨hn, cap.pos⟩)
      known'.atLeast (le_min_mul_min hm hn reached) (representable_whole cap.le).2
  · -- below the cap, both factors are known exactly
    have small : m * n ≤ cap.value := by omega
    have below : m < cap.value := Nat.lt_of_le_of_lt (Nat.le_mul_of_pos_right m hn) (by omega)
    have below' : n < cap.value := Nat.lt_of_le_of_lt (Nat.le_mul_of_pos_left n hm) (by omega)
    cases known with
    | beyond le _ => omega
    | exact le =>
        cases known' with
        | beyond le _ => omega
        | exact le' =>
            rw [ofNat_mul_ofNat (le.trans cap.le) (le'.trans cap.le) (small.trans cap.le)]
            exact .exact small

/-- What products pass on, repeated squaring passes on to powers. -/
theorem powTimes_of_mul {M : Type _} [CommMonoid M] {P : M → Binary64 → Prop}
    (mul : ∀ {m n x y}, P m x → P n y → P (m * n) (x * y)) {m k : M} {product base : Binary64}
    (start : P m product) (factor : P k base) (e : Nat) :
    P (m * k ^ e) (Binary64.powTimes product base e) := by
  induction e using Nat.strongRecOn generalizing m k product base with
  | ind e ih =>
    have odd : P (m * k ^ (e % 2)) (if e % 2 = 1 then product * base else product) := by
      rcases Nat.mod_two_eq_zero_or_one e with even | odd
      · rw [even, if_neg (by decide), pow_zero, mul_one]
        exact start
      · rw [odd, if_pos rfl, pow_one]
        exact mul start factor
    have split : m * k ^ e = m * k ^ (e % 2) * (k * k) ^ (e / 2) := by
      conv_lhs => rw [← Nat.mod_add_div e 2]
      rw [pow_add, pow_mul, pow_two, mul_assoc]
    rw [Binary64.powTimes, split]
    split
    next done =>
      rw [done, pow_zero, mul_one]
      exact odd
    next => exact ih (e / 2) (by omega) odd (mul factor factor)

theorem UpTo.powTimes {k : Nat} (hm : 0 < m) (hk : 0 < k) {product base : Binary64}
    (known : UpTo cap m product) (known' : UpTo cap k base) (e : Nat) :
    UpTo cap (m * k ^ e) (Binary64.powTimes product base e) := by
  have passes {m n : Nat} {x y : Binary64} (h : 0 < m ∧ UpTo cap m x) (h' : 0 < n ∧ UpTo cap n y) :
      0 < m * n ∧ UpTo cap (m * n) (x * y) := ⟨Nat.mul_pos h.1 h'.1, h.2.mul h.1 h'.1 h'.2⟩
  exact (powTimes_of_mul (P := fun n x => 0 < n ∧ UpTo cap n x) passes ⟨hm, known⟩ ⟨hk, known'⟩ e).2

theorem UpTo.pow {k : Nat} (hk : 0 < k) {base : Binary64} (known : UpTo cap k base) (e : Nat) :
    UpTo cap (k ^ e) (Binary64.pow base e) := by
  have power := (upTo_ofNat cap 1).powTimes Nat.one_pos hk known e
  rwa [Nat.one_mul] at power

theorem pow_zero_eq_one (base : Binary64) : base.pow 0 = 1 := by
  rw [Binary64.pow, Binary64.powTimes]
  rfl

theorem one_pow_eq_one (e : Nat) : Binary64.pow 1 e = 1 := by
  let two : Cap := ⟨2, by decide, by decide⟩
  have known : UpTo two (1 ^ e) (Binary64.pow 1 e) := (upTo_ofNat two 1).pow Nat.one_pos e
  rw [one_pow] at known
  exact known.eq_ofNat Nat.one_lt_two

/-! ## The whole part below a cap -/

theorem truncate_whole (n bound : Nat) (h : Representable (n * Number.one)) :
    truncate bound (.finite false (n * Number.one) h) = Nat.min n bound := by
  rw [truncate, if_neg Bool.false_ne_true, Nat.mul_div_cancel n Number.one_pos]

/-- What is not a number or greater than the cap is cut. -/
theorem min_cap (cap : Cap) (x : Binary64) :
    x.min (ofNat cap.value) =
      if x = .nan ∨ (cap.value * Number.one : Nat) < x.rank then ofNat cap.value else x := by
  have number : ofNat cap.value ≠ .nan := ofNat_ne_nan cap.le
  by_cases nan : x = .nan
  · rw [min, if_pos nan, if_pos (.inl nan)]
  · rw [min, if_neg nan, if_neg number, lt, rank_ofNat cap.le]
    simp [nan, number]

theorem truncate_min_le (cap : Cap) (x : Binary64) (bound : Nat) :
    (x.min (ofNat cap.value)).truncate bound ≤ cap.value := by
  rw [min_cap]
  split
  next =>
    rw [ofNat_of_le cap.le, truncate_whole]
    exact Nat.min_le_left ..
  next small =>
    rw [not_or, Int.not_lt] at small
    match x with
    | .nan => exact absurd rfl small.1
    | .infinite true | .finite true _ _ => exact Nat.zero_le cap.value
    | .infinite false =>
        exact absurd (Int.ofNat_le.1 small.2) (Nat.not_le.2 (representable_whole cap.le).1)
    | .finite false u _ =>
        refine Nat.le_trans (Nat.min_le_left ..) ?_
        exact Nat.div_le_of_le_mul (by rw [Nat.mul_comm]; exact Int.ofNat_le.1 small.2)

/-- Up to the cap, the whole part is the number that is stood for. -/
theorem UpTo.truncate_min {bound : Nat} (le : cap.value ≤ bound) (known : UpTo cap n x) :
    (x.min (ofNat cap.value)).truncate bound = Nat.min n cap.value := by
  rw [min_cap]
  cases known with
  | exact below =>
      have small : n ≤ Nat.pow 2 53 := below.trans cap.le
      have kept : ¬(ofNat n = .nan ∨
          (cap.value * Number.one : Nat) < (ofNat n).rank) := by
        rw [rank_ofNat small, not_or, Int.not_lt]
        exact ⟨ofNat_ne_nan small, Int.ofNat_le.2 (Nat.mul_le_mul_right _ below)⟩
      rw [if_neg kept, ofNat_of_le small, truncate_whole]
      exact (Nat.min_eq_left (below.trans le)).trans (Nat.min_eq_left below).symm
  | beyond above large =>
      have cut : (ofNat cap.value).truncate bound = cap.value := by
        rw [ofNat_of_le cap.le, truncate_whole]
        exact Nat.min_eq_left le
      rw [show Nat.min n cap.value = cap.value from Nat.min_eq_right above]
      split
      next => exact cut
      next small =>
        -- neither above the cap nor below it
        rw [not_or, Int.not_lt] at small
        match x with
        | .infinite false =>
            exact absurd (Int.ofNat_le.1 small.2) (Nat.not_le.2 (representable_whole cap.le).1)
        | .finite false u _ =>
            have equal : u = cap.value * Number.one :=
              Nat.le_antisymm (Int.ofNat_le.1 small.2) large
            subst equal
            rw [truncate_whole]
            exact Nat.min_eq_left le

end NodeInventory.Binary64
