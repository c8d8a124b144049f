import WatchedStore.Error
import WatchedStore.Text.Utf8

/-!
# Counter values

A counter is stored as decimal text, the form that a store's own arithmetic reads and writes. Reading
accepts an optional sign and digits in the range of 64-bit integers and turns nothing else into a number.
-/

namespace WatchedStore.Counter

/-- An integer as it is stored. -/
def encode (n : Int64) : Bytes := Numeral.encode n.toInt

/-- The integer stored under a key, if it is text and the text is that of an integer. -/
def decode (key : String) (bytes : Bytes) : Except Error Int64 :=
  match (Utf8.decode? bytes).map fun _ => Numeral.readSigned bytes with
  | some (.ok n) => .ok n
  | _ => .error (.malformedInteger key (Utf8.decodeLossy bytes))

end WatchedStore.Counter
