import Std.Data.ExtTreeMap.Basic
import WatchedStore.Cache.Region
import WatchedStore.Json.Parse

/-!
# Cached values

The forms of values that a region stores as JSON, and the forms in which stored texts are read back.
-/

namespace WatchedStore.Cache

open Json

/-- Somebody's name and how often they came. -/
structure Profile where
  name : String
  visits : UInt32

namespace Profile

/-- The form of a profile; both fields have to be there. -/
def record : Record Profile where
  expected := "struct Profile"
  blank := ⟨"", 0⟩
  fields := [
    .of "name" Reader.string (fun v p => { p with name := v }) none,
    .of "visits" Reader.unsigned32 (fun v p => { p with visits := v }) none]

/-- A profile as a document. -/
def document (p : Profile) : Document :=
  .object [("name", .string p.name), ("visits", .number (.natural p.visits.toUInt64))]

end Profile

/-- A value to be stored. -/
inductive Value where
  /-- A JSON text, which is read first and written anew. -/
  | json (text : Bytes)
  | string (s : String)
  | integer (n : Int64)
  | double (x : Float)
  /-- Bytes as an array of numbers. -/
  | bytes (b : Bytes)
  | profile (p : Profile)
  /-- Texts by number: an object with the numbers as names, in their order. -/
  | byNumber (members : List (Int64 × String))
  /-- Texts by pairs, which are no names for the members of an object. -/
  | byPair

/-- The JSON text of a value. -/
def Value.encode : Value → Except Error Bytes
  | .json text =>
    match Document.parse text with
    | .ok d => .ok d.encode
    | .error p => .error (.serialization p.message)
  | .string s => .ok (Document.string s).encode
  | .integer n => .ok (Document.ofInt64 n).encode
  | .double x => .ok (Document.ofDouble x).encode
  | .bytes b => .ok (Document.array (b.map fun n => .number (.natural n.toUInt64))).encode
  | .profile p => .ok p.document.encode
  | .byNumber members =>
    let sorted : Std.ExtTreeMap Int String :=
      .ofList (members.map fun (n, s) => (n.toInt, s))
    .ok (Document.object (sorted.toList.map fun (n, s) => (Numeral.text n, .string s))).encode
  | .byPair => .error (.serialization Fault.keyMustBeString.message)

/-- What a stored text is read as. -/
inductive Form where
  | json
  | string
  | integer
  | byte
  | boolean
  | double
  | bytes
  | optionalInteger
  | profile

/-- A value that was read back. -/
inductive Reading where
  | json (d : Document)
  | string (s : String)
  | integer (n : Int64)
  | byte (n : UInt8)
  | boolean (b : Bool)
  | double (x : Float)
  | bytes (b : Bytes)
  | optionalInteger (n : Option Int64)
  | profile (p : Profile)

/-- Reads a text in a form. -/
def Form.reader : Form → Reader Reading
  | .json => .json <$> Reader.document
  | .string => .string <$> Reader.string
  | .integer => .integer <$> Reader.signed
  | .byte => .byte <$> Reader.byte
  | .boolean => .boolean <$> Reader.boolean
  | .double => .double <$> Reader.double
  | .bytes => .bytes <$> Reader.array Reader.byte
  | .optionalInteger => .optionalInteger <$> Reader.optional Reader.signed
  | .profile => .profile <$> Profile.record.read

/-- Stores a value under a key. A value without a JSON text is not sent. -/
def Region.putValue (r : Region) (key : String) (v : Value) : Action τ Unit := do
  r.put key (← Action.ofExcept v.encode)

end WatchedStore.Cache
