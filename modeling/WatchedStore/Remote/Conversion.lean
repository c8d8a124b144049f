import WatchedStore.Remote.Failure

/-!
# Reading answers

What a call wants is read from the server's datum with some leniency: numbers also from doubles and from
texts, truth values also from numbers, lists also from sets. What is said about a datum is passed over,
except for a list.
-/

namespace WatchedStore.Remote.Datum

/-- A datum without what is said about it. -/
def bare : Datum → Datum
  | .attributed data _ => data
  | d => d

/-- A number; `ofInt` and `ofDouble` narrow it to the wanted range, `ofText` reads its digits. The text of
a success is no text of a number at all. -/
def readNumber (ofInt : Int64 → α) (ofDouble : Float → α) (ofText : Bytes → Option α)
    (d : Datum) : Except Failure α :=
  let d := d.bare
  let ofDigits (digits : Bytes) : Except Failure α :=
    match ofText digits with
    | some a => .ok a
    | none => .error (.wrongType "Could not convert from string." d)
  let noNumber : Except Failure α := .error (.wrongType "Response type not convertible to numeric." d)
  match d with
  | .integer n => .ok (ofInt n)
  | .double x => .ok (ofDouble x)
  | .simple "OK" => noNumber
  | .simple s => ofDigits (Bytes.ofText s)
  | .bulk bytes => if (Utf8.decode? bytes).isNone then .error .notUtf8 else ofDigits bytes
  | _ => noNumber

/-- A signed 64-bit integer. -/
def toInteger : Datum → Except Failure Int64 :=
  readNumber (fun n => n) Float.toInt64 fun digits => (Numeral.readSigned digits).toOption

/-- A byte; greater integers keep their lowest bits. -/
def toByte : Datum → Except Failure UInt8 :=
  readNumber (fun n => n.toUInt64.toUInt8) Float.toUInt8 fun digits =>
    match Numeral.readUnsigned digits with
    | .ok n => if n < 256 then some n.toUInt8 else none
    | .error _ => none

/-- A truth value. -/
def toBool (d : Datum) : Except Failure Bool :=
  let d := d.bare
  match d with
  | .nil => .ok false
  | .integer n => .ok (n != 0)
  | .boolean b => .ok b
  | .simple "OK" => .ok true
  | .simple "1" => .ok true
  | .simple "0" => .ok false
  | .simple _ => .error (.wrongType "Response status not valid boolean" d)
  | .bulk [0x31] => .ok true
  | .bulk [0x30] => .ok false
  | _ => .error (.wrongType "Response type not bool compatible." d)

/-- A text. -/
def toText (d : Datum) : Except Failure String :=
  let d := d.bare
  match d with
  | .bulk bytes =>
    match Utf8.decode? bytes with
    | some s => .ok s
    | none => .error .notUtf8
  | .simple s => .ok s
  | .verbatim _ text => .ok text
  | .double x => .ok (String.ofList (Decimal.Layout.double ⟨-400, 400, false, false⟩ x))
  | .integer n => .ok (Numeral.text n.toInt)
  | _ => .error (.wrongType "Response type not string compatible." d)

/-- A list; `element` reads each item of an array or set, and an entry of a map stands for a map with
this entry alone. `ofBytes` reads a byte string as a list. -/
def toList (element : Datum → Except Failure α) (ofBytes : Bytes → List α) (d : Datum) :
    Except Failure (List α) :=
  match d with
  | .bulk bytes => .ok (ofBytes bytes)
  | .array items => items.mapM element
  | .set items => items.mapM element
  | .map entries => entries.mapM fun entry => element (.map [entry])
  | .nil => .ok []
  | _ => .error (.wrongType "Response type not vector compatible." d)

/-- Bytes. -/
def toBytes : Datum → Except Failure Bytes := toList toByte fun bytes => bytes

/-- Bytes, or nothing. -/
def toBytes? (d : Datum) : Except Failure (Option Bytes) :=
  match d.bare with
  | .nil => .ok none
  | d => some <$> d.toBytes

/-- Several byte strings. -/
def toByteStrings : Datum → Except Failure (List Bytes) := toList toBytes fun bytes => [bytes]

end WatchedStore.Remote.Datum
