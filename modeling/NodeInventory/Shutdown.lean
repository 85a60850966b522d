/-!
# Shutdown

Any number of tokens watch one sender.  Waiting for a shutdown ends when it has been requested, and
also when the sender is gone without a request; only a request makes the state `requested`.
-/

namespace NodeInventory.Shutdown

structure Channel where
  requested : Bool
  senderAlive : Bool
deriving DecidableEq, Repr

namespace Channel

def start : Channel := ⟨false, true⟩

/-- A request of a sender that is gone does nothing. -/
def request (channel : Channel) : Channel :=
  if channel.senderAlive then { channel with requested := true } else channel

def dropSender (channel : Channel) : Channel := { channel with senderAlive := false }

/-- Whether waiting would end at once. -/
def waitEnds (channel : Channel) : Bool := channel.requested || !channel.senderAlive

end Channel

inductive Cause
  | requested
  | abandoned
deriving DecidableEq, Repr

/-- What ends the waiting, and the millisecond at which it happens. -/
structure Event where
  time : Nat
  cause : Cause
deriving DecidableEq, Repr

def Cause.apply : Cause → Channel → Channel
  | .requested => Channel.request
  | .abandoned => Channel.dropSender

/-- The channel at some time. -/
def channelAt (event : Option Event) (now : Nat) : Channel :=
  match event with
  | none => .start
  | some event => if event.time ≤ now then event.cause.apply .start else .start

theorem channelAt_requested {event : Event} {now : Nat} :
    (channelAt (some event) now).requested = true ↔
      event.time ≤ now ∧ event.cause = .requested := by
  simp only [channelAt]
  split
  next le => cases cause : event.cause <;> simp [Cause.apply, Channel.request, Channel.dropSender,
    Channel.start, le]
  next gt => simp [Channel.start, gt]

inductive Branch
  | timer
  | stop
deriving DecidableEq, Repr

/-- Which comes first of a timer due at `due` and the end of the waiting, and when.  Where both are
there at one time, `tie` is taken. -/
def race (tie : Branch) (now due : Nat) (event : Option Event) : Branch × Nat :=
  let ring := max now due
  match event with
  | none => (.timer, ring)
  | some event =>
      let stop := max now event.time
      if ring < stop then (.timer, ring)
      else if stop < ring then (.stop, stop)
      else (tie, ring)

@[simp] theorem race_none (tie : Branch) (now due : Nat) :
    race tie now due none = (.timer, max now due) := rfl

/-- A timer that wins rings at its time, but not before it is waited for. -/
theorem time_of_race_timer {tie : Branch} {now due time : Nat} {event : Option Event}
    (h : race tie now due event = (.timer, time)) : time = max now due := by
  simp only [race] at h
  split at h
  · cases h; rfl
  split at h
  · cases h; rfl
  split at h <;> cases h
  rfl

/-- A timer that wins rings no later than the waiting ends. -/
theorem ring_le_of_race_timer {tie : Branch} {now due time : Nat} {event : Event}
    (h : race tie now due (some event) = (.timer, time)) :
    max now due ≤ max now event.time := by
  simp only [race] at h
  split at h
  · omega
  split at h
  · cases h
  · omega

/-- A waiting that ends first ends with the event, and no later than the timer rings. -/
theorem race_eq_stop {tie : Branch} {now due time : Nat} {event : Event}
    (h : race tie now due (some event) = (.stop, time)) :
    time = max now event.time ∧ max now event.time ≤ max now due := by
  simp only [race] at h
  split at h
  · cases h
  split at h
  · cases h; omega
  · cases h; omega

/-- Only an event ends a waiting before the timer rings. -/
theorem exists_of_race_stop {tie : Branch} {now due time : Nat} {event : Option Event}
    (h : race tie now due event = (.stop, time)) :
    ∃ stop, event = some stop ∧ time = max now stop.time ∧ max now stop.time ≤ max now due := by
  cases event with
  | none => cases h
  | some stop => exact ⟨stop, rfl, race_eq_stop h⟩

/-- A timer that wins rings no earlier than it is waited for. -/
theorem le_of_race_timer {tie : Branch} {now due time : Nat} {event : Option Event}
    (h : race tie now due event = (.timer, time)) : now ≤ time := by
  rw [time_of_race_timer h]
  exact Nat.le_max_left _ _

theorem lt_of_not_requested {shutdown time : Nat}
    (h : ¬(channelAt (some ⟨shutdown, .requested⟩) time).requested = true) : time < shutdown :=
  Nat.lt_of_not_le fun le => h (channelAt_requested.2 ⟨le, rfl⟩)

/-- A request that is noticed behind a timer has come as the timer rings, or before the wait. -/
theorem time_of_noticed {tie : Branch} {now due shutdown time : Nat}
    (tick : race tie now due (some ⟨shutdown, .requested⟩) = (.timer, time))
    (requested : (channelAt (some ⟨shutdown, .requested⟩) time).requested = true) :
    time = max now shutdown := by
  have ring_le := ring_le_of_race_timer tick
  rw [← time_of_race_timer tick] at ring_le
  exact Nat.le_antisymm ring_le
    (Nat.max_le.2 ⟨le_of_race_timer tick, (channelAt_requested.1 requested).1⟩)

end NodeInventory.Shutdown
