/-!
# The fewest digits that read back

A finite double is `m * 2 ^ q`. The reals that round to it form an interval around it, which contains
its ends exactly when `m` is even. `shortest` looks for the coarsest decimal grid with a point in that
interval. If a grid has one, then one of the two grid points next to the value is one, so only these two
are tried, in exact arithmetic on naturals. Of two hits the nearer wins, at the same distance the even one.
-/

namespace WatchedStore.Decimal

/-- The positive number `digits * 10 ^ exponent`. -/
structure Scientific where
  digits : Nat
  exponent : Int
  deriving DecidableEq, Repr

/-- A positive double and the interval that rounds to it, as fractions over one denominator. -/
structure Target where
  value : Nat
  low : Nat
  high : Nat
  denominator : Nat
  closed : Bool

/-- The interval of `m * 2 ^ q`. Below a power of two the neighbours lie closer together. -/
def Target.ofParts (m : Nat) (q : Int) (powerBoundary : Bool) : Target :=
  let below := if powerBoundary then 1 else 2
  let scale := if 2 ≤ q then Nat.pow 2 (q - 2).toNat else 1
  let denominator := if 2 ≤ q then 1 else Nat.pow 2 (2 - q).toNat
  { value := 4 * m * scale
    low := (4 * m - below) * scale
    high := (4 * m + 2) * scale
    denominator
    closed := m % 2 = 0 }

/-- Whether `d * unit / den` lies in the interval. -/
def Target.holds (t : Target) (d unit den : Nat) : Bool :=
  let x := d * unit * t.denominator
  if t.closed then t.low * den ≤ x && x ≤ t.high * den else t.low * den < x && x < t.high * den

/-- The better of the two points of the grid `10 ^ exponent` next to the value, if any rounds to it. -/
def Target.onGrid? (t : Target) (exponent : Int) : Option Scientific :=
  let unit := if 0 ≤ exponent then Nat.pow 10 exponent.toNat else 1
  let den := if 0 ≤ exponent then 1 else Nat.pow 10 (-exponent).toNat
  let below := t.value * den / (t.denominator * unit)
  let lower := below != 0 && t.holds below unit den
  let upper := t.holds (below + 1) unit den
  if lower && upper then
    let twice := 2 * t.value * den
    let middle := (2 * below + 1) * unit * t.denominator
    if twice < middle || (twice = middle && below % 2 = 0) then some ⟨below, exponent⟩
    else some ⟨below + 1, exponent⟩
  else if lower then some ⟨below, exponent⟩
  else if upper then some ⟨below + 1, exponent⟩
  else none

/-- The exponent of the grid on which the value has one digit: the largest `e` with `10 ^ e` at most
the value. -/
def Target.leadingExponent (t : Target) : Int :=
  let whole := t.value / t.denominator
  if whole != 0 then ((Nat.toDigits 10 whole).length : Int) - 1
  else
    -- `10 ^ k` times the value is at least one for the first time at the exponent `-k`
    let k := (List.range 400).find? fun (k : Nat) => t.denominator ≤ t.value * Nat.pow 10 k
    Int.negOfNat (k.getD 400)

/-- The first grid with a hit, from the coarsest on. Seventeen digits always suffice. -/
def Target.shortest (t : Target) : Scientific :=
  let lead := t.leadingExponent
  let hit := (List.range 18).findSome? fun (i : Nat) => t.onGrid? (lead + 1 - (i : Int))
  hit.getD ⟨0, 0⟩

/-- Strips the zeros at the end of the digits. -/
def Scientific.normal : Nat → Scientific → Scientific
  | 0, s => s
  | fuel + 1, s =>
    if s.digits != 0 && s.digits % 10 = 0 then normal fuel ⟨s.digits / 10, s.exponent + 1⟩ else s

/-- The shortest decimal for the bits of a finite double other than zero, the sign left out. -/
def ofBits (bits : UInt64) : Scientific :=
  let mantissa := (bits &&& 0xFFFFFFFFFFFFF).toNat
  let exponent := ((bits >>> 52) &&& 0x7FF).toNat
  let target :=
    if exponent = 0 then Target.ofParts mantissa (-1074) false
    else Target.ofParts (mantissa + 0x10000000000000) (exponent - 1075) (mantissa = 0 && 1 < exponent)
  target.shortest.normal 20

end WatchedStore.Decimal
