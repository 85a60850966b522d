/-!
# Lengths of time

Durations count nanoseconds.  The clock ticks in milliseconds: a timer set for a duration rings at
the first tick that is not too early, and no later than its longest wait.
-/

namespace NodeInventory

structure Duration where
  nanos : Nat
deriving DecidableEq, Repr

namespace Duration

def ofMillis (ms : Nat) : Duration := ⟨ms * 1000000⟩

def ofSecs (s : Nat) : Duration := ⟨s * 1000000000⟩

/-- Whole milliseconds, the rest cut off. -/
def millis (d : Duration) : Nat := d.nanos / 1000000

/-- Milliseconds until a timer set for `d` rings. -/
def ticks (d : Duration) : Nat := (d.nanos + 999999) / 1000000

def isZero (d : Duration) : Bool := d.nanos = 0

instance : LE Duration := ⟨fun a b => a.nanos ≤ b.nanos⟩

instance : LT Duration := ⟨fun a b => a.nanos < b.nanos⟩

instance (a b : Duration) : Decidable (a ≤ b) := inferInstanceAs (Decidable (a.nanos ≤ b.nanos))

instance (a b : Duration) : Decidable (a < b) := inferInstanceAs (Decidable (a.nanos < b.nanos))

instance : Max Duration := ⟨fun a b => ⟨max a.nanos b.nanos⟩⟩

@[simp] theorem ofMillis_nanos (ms : Nat) : (ofMillis ms).nanos = ms * 1000000 := rfl

@[simp] theorem millis_ofMillis (ms : Nat) : (ofMillis ms).millis = ms := by
  simp [millis]

@[simp] theorem ticks_ofMillis (ms : Nat) : (ofMillis ms).ticks = ms := by
  simp only [ticks, ofMillis_nanos]; omega

@[simp] theorem max_nanos (a b : Duration) : (max a b).nanos = max a.nanos b.nanos := rfl

/-- Milliseconds between two readings of a clock, none when it was set back. -/
def elapsedMillis (now start : Int) : Int := max (now - start) 0

end Duration

/-- What rings when a wait is over. -/
structure Timer where
  /-- The milliseconds after which it rings whatever it was set for, if there are any such. -/
  longest : Option Nat
  longest_pos : ∀ ms, longest = some ms → 0 < ms
deriving DecidableEq, Repr

namespace Timer

/-- The timer that rings exactly when it was set to. -/
def exact : Timer := ⟨none, fun _ h => nomatch h⟩

/-- The timer that rings after thirty years at the latest. -/
def thirtyYears : Timer := ⟨some (30 * 365 * 24 * 60 * 60 * 1000), fun _ h => by injection h; omega⟩

/-- Milliseconds until the timer rings when it is set for `d`. -/
def wait (timer : Timer) (d : Duration) : Nat :=
  match timer.longest with
  | none => d.ticks
  | some longest => min d.ticks longest

@[simp] theorem wait_exact (d : Duration) : exact.wait d = d.ticks := rfl

theorem wait_pos (timer : Timer) {d : Duration} (h : 0 < d.ticks) : 0 < timer.wait d := by
  unfold wait
  split
  · exact h
  · next longest hl => have := timer.longest_pos longest hl; omega

end Timer

end NodeInventory
