/-!
# Binary floating point numbers of 64 bits

Every finite number is a whole multiple of the least positive one, 2⁻¹⁰⁷⁴.  Its magnitude is kept as
that multiple, in *units*, so magnitudes compare as natural numbers do.  `nearest` rounds a quotient
of units to the closest magnitude, a half to the one with the even significand.
-/

namespace NodeInventory.Number

/-- The number one, in units. -/
def one : Nat := Nat.pow 2 1074

/-- Magnitudes have at most this many bits, in units. -/
def width : Nat := 2098

/-- The first power of two out of range, in units. -/
def overflow : Nat := Nat.pow 2 width

/-- Magnitudes near `u` units are `gap u` units apart, the power of two with this exponent. -/
def spacing (u : Nat) : Nat := u.log2 - 52

def gap (u : Nat) : Nat := Nat.pow 2 (spacing u)

/-- The least significand of 53 bits. -/
def leastSignificand : Nat := 0x10000000000000

def Representable (u : Nat) : Prop := u < overflow ∧ gap u ∣ u

instance (u : Nat) : Decidable (Representable u) :=
  inferInstanceAs (Decidable (_ ∧ _))

theorem log2_lt_of_lt {u k : Nat} (hk : 0 < k) (h : u < Nat.pow 2 k) : u.log2 < k := by
  by_cases hu : u = 0
  · subst hu; simpa using hk
  · exact (Nat.log2_lt hu).2 h

theorem two_pow_lt_two_pow {j k : Nat} (h : j < k) : Nat.pow 2 j < Nat.pow 2 k :=
  Nat.pow_lt_pow_right (by decide) h

theorem two_pow_lt_overflow {k : Nat} (h : k < width) : Nat.pow 2 k < overflow := by
  unfold overflow
  generalize width = w at h ⊢
  exact two_pow_lt_two_pow h

/-- A significand of at most 53 bits stays representable when it is shifted. -/
theorem dvd_shifted {m : Nat} (h : m ≤ Nat.pow 2 53) (s : Nat) :
    gap (m * Nat.pow 2 s) ∣ m * Nat.pow 2 s := by
  simp only [gap, Nat.pow_eq] at h ⊢
  by_cases hm : m = 2 ^ 53
  · subst hm
    rw [← Nat.pow_add]
    simp only [spacing, Nat.log2_two_pow]
    exact Nat.pow_dvd_pow 2 (by omega)
  · have hlt : m * 2 ^ s < 2 ^ (53 + s) := by
      rw [Nat.pow_add]
      exact Nat.mul_lt_mul_of_pos_right (by omega) (Nat.two_pow_pos s)
    have := log2_lt_of_lt (by omega) hlt
    exact Nat.dvd_trans (Nat.pow_dvd_pow 2 (by simp only [spacing]; omega)) (Nat.dvd_mul_left ..)

/-- The quotient as a whole number, the nearest one, and of two nearest the even one. -/
def roundDiv (p q : Nat) : Nat :=
  let m := p / q
  let twice := 2 * (p % q)
  if twice < q ∨ twice = q ∧ m % 2 = 0 then m else m + 1

theorem le_roundDiv (p q : Nat) : p / q ≤ roundDiv p q := by
  simp only [roundDiv]; split <;> omega

theorem roundDiv_le (p q : Nat) : roundDiv p q ≤ p / q + 1 := by
  simp only [roundDiv]; split <;> omega

theorem roundDiv_mul_right (m : Nat) {q : Nat} (hq : 0 < q) : roundDiv (m * q) q = m := by
  simp [roundDiv, Nat.mul_div_cancel _ hq, Nat.mul_mod_left, hq]

/-- The magnitude nearest to `p / q` units. -/
def nearest (p q : Nat) : Nat :=
  let s := spacing (p / q)
  roundDiv p (q * Nat.pow 2 s) * Nat.pow 2 s

theorem dvd_nearest (p q : Nat) : gap (nearest p q) ∣ nearest p q := by
  refine dvd_shifted ?_ _
  refine Nat.le_trans (roundDiv_le ..) (Nat.succ_le_of_lt ?_)
  rw [← Nat.div_div_eq_div_mul]
  refine (Nat.div_lt_iff_lt_mul (Nat.two_pow_pos _)).2 ?_
  rw [Nat.pow_eq, ← Nat.pow_add]
  refine Nat.lt_of_lt_of_le Nat.lt_log2_self (Nat.pow_le_pow_right (by decide) ?_)
  simp only [spacing]; omega

theorem nearest_one {u : Nat} (h : gap u ∣ u) : nearest u 1 = u := by
  simp only [nearest, gap, Nat.div_one, Nat.one_mul, Nat.pow_eq] at h ⊢
  obtain ⟨m, hm⟩ := h
  have eq : u = m * 2 ^ spacing u := hm.trans (Nat.mul_comm ..)
  generalize 2 ^ spacing u = q at eq
  subst eq
  by_cases hq : q = 0
  · simp [hq]
  · rw [roundDiv_mul_right m (by omega)]

end NodeInventory.Number

namespace NodeInventory

open Number

inductive Binary64
  | nan
  | infinite (negative : Bool)
  | finite (negative : Bool) (units : Nat) (representable : Representable units)
deriving DecidableEq, Repr

namespace Binary64

/-- The number nearest to `p / q` units, infinite when that is out of range. -/
def ofRatio (negative : Bool) (p q : Nat) : Binary64 :=
  let u := nearest p q
  if h : u < overflow then .finite negative u ⟨h, dvd_nearest p q⟩ else .infinite negative

def ofNat (n : Nat) : Binary64 := ofRatio false (n * Number.one) 1

instance (n : Nat) : OfNat Binary64 n := ⟨ofNat n⟩

def isFinite : Binary64 → Bool
  | .finite .. => true
  | _ => false

def isInfinite : Binary64 → Bool
  | .infinite _ => true
  | _ => false

/-- Products are exact before they are rounded; nothing times infinity is not a number. -/
def mul : Binary64 → Binary64 → Binary64
  | .finite s a _, .finite t b _ => ofRatio (s != t) (a * b) Number.one
  | .infinite s, .infinite t => .infinite (s != t)
  | .infinite s, .finite t u _ | .finite s u _, .infinite t =>
      if u = 0 then .nan else .infinite (s != t)
  | .nan, _ | _, .nan => .nan

instance : Mul Binary64 := ⟨mul⟩

/-- The place of a number in the order, in units; both zeros share one. -/
def rank : Binary64 → Int
  | .nan => 0
  | .infinite negative => if negative then -(overflow : Int) else overflow
  | .finite negative u _ => if negative then -(u : Int) else u

/-- Nothing is below or above what is not a number. -/
def lt (a b : Binary64) : Bool := a != .nan && b != .nan && a.rank < b.rank

/-- The lesser operand; one that is not a number gives way to the other. -/
def min (a b : Binary64) : Binary64 :=
  if a = .nan then b else if b = .nan then a else if b.lt a then b else a

/-- The greater operand; one that is not a number gives way to the other. -/
def max (a b : Binary64) : Binary64 :=
  if a = .nan then b else if b = .nan then a else if a.lt b then b else a

/-- The whole part, held within `0` and `bound`; zero for what is not a number. -/
def truncate (bound : Nat) : Binary64 → Nat
  | .nan => 0
  | .infinite negative => if negative then 0 else bound
  | .finite negative u _ => if negative then 0 else Nat.min (u / Number.one) bound

/-- `product` times `base` to the power `n`, by repeated squaring from the lowest bit. -/
def powTimes (product base : Binary64) (n : Nat) : Binary64 :=
  let product := if n % 2 = 1 then product * base else product
  if n / 2 = 0 then product else powTimes product (base * base) (n / 2)
termination_by n
decreasing_by omega

def pow (base : Binary64) (n : Nat) : Binary64 := powTimes 1 base n

def signBit : Nat := 0x8000000000000000

/-- The 64 bits: sign, eleven bits of exponent, 52 of significand. -/
def bits : Binary64 → Nat
  | .nan => 0x7FF8000000000000
  | .infinite negative => (if negative then signBit else 0) + 0x7FF0000000000000
  | .finite negative u _ =>
      (if negative then signBit else 0) + spacing u * leastSignificand + u / gap u

end Binary64

end NodeInventory
