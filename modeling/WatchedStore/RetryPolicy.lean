import WatchedStore.Duration

/-!
# Retrying with growing delays

Of `maxAttempts` attempts the first is free, so at most `maxAttempts - 1` delays are handed out. The
delay before the next attempt grows by a constant factor up to a limit. With jitter it is shortened by a
random share of up to one half; the share is an argument here (`draw`, from zero to one), not an effect.
-/

namespace WatchedStore

/-- How often to try, and how long to wait in between. -/
structure RetryPolicy where
  maxAttempts : Nat
  initialDelay : Duration
  maxDelay : Duration
  multiplier : Float
  jitter : Bool

namespace RetryPolicy

/-- How often to try where nothing is said. -/
def defaultAttempts : Nat := 32

/-- The first delay where nothing is said. -/
def defaultInitialDelay : Duration := .ofMillis 1

/-- The longest delay where nothing is said. -/
def defaultMaxDelay : Duration := .ofMillis 200

/-- How delays grow where nothing is said. -/
def defaultMultiplier : Float := 2.0

/-- Whether delays are shortened at random where nothing is said. -/
def defaultJitter : Bool := true

/-- Thirty-two attempts, waiting one millisecond at first and at most a fifth of a second. -/
def standard : RetryPolicy where
  maxAttempts := defaultAttempts
  initialDelay := defaultInitialDelay
  maxDelay := defaultMaxDelay
  multiplier := defaultMultiplier
  jitter := defaultJitter

/-- The smaller of two numbers, or the one that is a number. -/
def smaller (x y : Float) : Float :=
  if x.isNaN then y else if y.isNaN then x else if y < x then y else x

/-- The larger of two numbers, or the one that is a number. -/
def larger (x y : Float) : Float :=
  if x.isNaN then y else if y.isNaN then x else if x < y then y else x

/-- The delay in microseconds after so many attempts, before jitter. -/
def baseMicros (p : RetryPolicy) (attempt : Nat) : Float :=
  let grown := Float.ofNat p.initialDelay.wholeMicros * p.multiplier.pow (Float.ofNat attempt - 1.0)
  larger (smaller grown (Float.ofNat p.maxDelay.wholeMicros)) 0.0

/-- The delay after so many attempts. -/
def delay (p : RetryPolicy) (attempt : Nat) (draw : Float) : Duration :=
  let base := p.baseMicros attempt
  .ofMicros (if p.jitter then (base * (draw * 0.5 + 0.5)).toUInt64 else base.toUInt64)

/-- Whether a delay lies between half of the delay without jitter and all of it, up to a microsecond at
the lower end. -/
def admits (p : RetryPolicy) (attempt : Nat) (d : Duration) : Bool :=
  let full := (p.baseMicros attempt).toUInt64.toNat
  full / 2 ≤ d.wholeMicros + 1 && d.wholeMicros ≤ full

end RetryPolicy

/-- How many attempts of a policy have been made. -/
structure Backoff where
  policy : RetryPolicy
  attempts : Nat := 0

namespace Backoff

/-- Counts an attempt that failed: the delay before the next one, or `none` when all are spent. -/
def next (b : Backoff) (draw : Float) : Option Duration × Backoff :=
  let attempts := b.attempts + 1
  let delay := if attempts < b.policy.maxAttempts then some (b.policy.delay attempts draw) else none
  (delay, { b with attempts })

theorem next_some {b counted : Backoff} {draw : Float} {delay : Duration}
    (h : b.next draw = (some delay, counted)) :
    counted = { b with attempts := b.attempts + 1 } ∧ b.attempts + 1 < b.policy.maxAttempts := by
  simp only [next] at h
  split at h
  · cases h
    exact ⟨rfl, ‹_›⟩
  · cases h

theorem next_none {b counted : Backoff} {draw : Float} (h : b.next draw = (none, counted)) :
    counted = { b with attempts := b.attempts + 1 } ∧ b.policy.maxAttempts ≤ b.attempts + 1 := by
  simp only [next] at h
  split at h
  · cases h
  · cases h
    exact ⟨rfl, Nat.not_lt.mp ‹_›⟩

/-- How many attempts of the policy have not been counted yet. -/
def left (b : Backoff) : Nat := b.policy.maxAttempts - b.attempts

/-- Every delay takes one of the attempts that are left, and not the last one. -/
theorem left_of_next {b counted : Backoff} {draw : Float} {delay : Duration}
    (h : b.next draw = (some delay, counted)) : b.left = counted.left + 1 ∧ 0 < counted.left := by
  obtain ⟨rfl, hfree⟩ := next_some h
  simp only [left]
  omega

end Backoff

end WatchedStore
