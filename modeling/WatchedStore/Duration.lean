import WatchedStore.Text.Numeral

/-!
# Durations and instants

A duration is a whole number of nanoseconds whose seconds fit in 64 bits. An instant is the number of
nanoseconds since the clock began; its seconds have to stay below 2^63, so adding a long duration to an
instant can fail.
-/

namespace WatchedStore

/-- A span of time in nanoseconds. -/
structure Duration where
  nanoseconds : Nat
  bounded : nanoseconds / 1000000000 < 0x10000000000000000

namespace Duration

instance : DecidableEq Duration := fun a b =>
  decidable_of_iff (a.nanoseconds = b.nanoseconds)
    ⟨fun h => by cases a; cases b; simp_all, fun h => h ▸ rfl⟩

/-- No time at all. -/
def zero : Duration := ⟨0, by decide⟩

instance : Inhabited Duration := ⟨zero⟩

/-- A span of so many milliseconds. -/
def ofMillis (n : UInt64) : Duration :=
  ⟨n.toNat * 1000000, by have := n.toNat_lt; omega⟩

/-- A span of so many microseconds. -/
def ofMicros (n : UInt64) : Duration :=
  ⟨n.toNat * 1000, by have := n.toNat_lt; omega⟩

/-- A span of so many seconds. -/
def ofSeconds (n : UInt64) : Duration :=
  ⟨n.toNat * 1000000000, by have := n.toNat_lt; omega⟩

/-- Seconds and nanoseconds together, if the seconds still fit after carrying. -/
def ofParts? (seconds nanoseconds : Nat) : Option Duration :=
  let total := seconds * 1000000000 + nanoseconds
  if h : total / 1000000000 < 0x10000000000000000 then some ⟨total, h⟩ else none

/-- The whole seconds. -/
def seconds (d : Duration) : Nat := d.nanoseconds / 1000000000

/-- What is left after the whole seconds. -/
def subsecond (d : Duration) : Nat := d.nanoseconds % 1000000000

/-- The whole milliseconds. -/
def wholeMillis (d : Duration) : Nat := d.nanoseconds / 1000000

/-- The whole microseconds. -/
def wholeMicros (d : Duration) : Nat := d.nanoseconds / 1000

/-- The whole milliseconds, kept to their lowest 64 bits. -/
def millis64 (d : Duration) : UInt64 := UInt64.ofNat d.wholeMillis

/-- Whether a span is empty. -/
def isZero (d : Duration) : Bool := d.nanoseconds = 0

/-- A fraction's digits after the point, `width` of them, without the zeros at the end. -/
def fractionDigits (width fraction : Nat) : List Char :=
  let digits := Nat.toDigits 10 fraction
  let padded := List.replicate (width - digits.length) '0' ++ digits
  (padded.reverse.dropWhile (· == '0')).reverse

/-- A whole part and a fraction of `width` places, written without superfluous zeros. -/
def decimalText (whole fraction width : Nat) : String :=
  let digits := if fraction = 0 then [] else '.' :: fractionDigits width fraction
  String.ofList (Nat.toDigits 10 whole ++ digits)

/-- A span in the largest unit that it fills: seconds, milliseconds, microseconds or nanoseconds. -/
def text (d : Duration) : String :=
  let n := d.nanoseconds
  if 1000000000 ≤ n then decimalText (n / 1000000000) (n % 1000000000) 9 ++ "s"
  else if 1000000 ≤ n then decimalText (n / 1000000) (n % 1000000) 6 ++ "ms"
  else if 1000 ≤ n then decimalText (n / 1000) (n % 1000) 3 ++ "µs"
  else decimalText n 0 0 ++ "ns"

end Duration

/-- A reading of the clock, in nanoseconds. -/
abbrev Instant := Nat

namespace Instant

/-- The end of a span that starts at `now`, if the clock can show it. -/
def after? (now : Instant) (d : Duration) : Option Instant :=
  if (now + d.nanoseconds) / 1000000000 < 0x8000000000000000 then some (now + d.nanoseconds) else none

end Instant

end WatchedStore
