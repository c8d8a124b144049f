import WatchedStore.Decimal.Shortest

/-!
# Laying out decimals

A layout says which decimals are written positionally and which with an exponent, whether a positive
exponent carries a sign, and whether an integral value keeps a fraction.
-/

namespace WatchedStore.Decimal

/-- How decimals are written: decimal exponents of the first digit from `lowest` to `highest`
positionally, the others with an exponent. -/
structure Layout where
  lowest : Int
  highest : Int
  /-- Whether a positive exponent is written with a plus sign. -/
  plusSign : Bool
  /-- Whether an integral value that is written positionally ends in `.0`. -/
  keepsFraction : Bool

/-- A positive decimal. -/
def Layout.write (l : Layout) (s : Scientific) : List Char :=
  let digits := Nat.toDigits 10 s.digits
  let lead := s.exponent + digits.length - 1
  if lead < l.lowest || l.highest < lead then
    let sign := if lead < 0 then ['-'] else if l.plusSign then ['+'] else []
    let fraction := if digits.length = 1 then [] else '.' :: digits.drop 1
    digits.take 1 ++ fraction ++ 'e' :: sign ++ Nat.toDigits 10 lead.natAbs
  else if 0 ≤ s.exponent then
    digits ++ List.replicate s.exponent.toNat '0' ++ if l.keepsFraction then ['.', '0'] else []
  else if 0 ≤ lead then
    digits.take (lead.toNat + 1) ++ '.' :: digits.drop (lead.toNat + 1)
  else
    '0' :: '.' :: List.replicate (-lead - 1).toNat '0' ++ digits

/-- A double, with a sign also for negative zero. -/
def Layout.double (l : Layout) (x : Float) : List Char :=
  let bits := x.toBits
  let sign := if bits >>> 63 = 1 then ['-'] else []
  let size := bits &&& 0x7FFFFFFFFFFFFFFF
  if x.isNaN then ['N', 'a', 'N']
  else if x.isInf then sign ++ ['i', 'n', 'f']
  else if size = 0 then sign ++ '0' :: if l.keepsFraction then ['.', '0'] else []
  else sign ++ l.write (ofBits size)

end WatchedStore.Decimal
