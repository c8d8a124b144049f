import WatchedStore.Json.Reader

/-!
# Reading values of a wanted form

Each reader wants one form of value and says in its failure what it met instead. Scalars of a wrong form
are read to their end first, so a malformed one is reported as such; wrong containers are not entered.

A record (`Record`) is read from an object, in any order of its fields and skipping unknown ones, or from
an array of its fields in their order. Each field brings the value that it has where it is left out; one
without such a value is required. An object is read to its end first, and the record is made of what it
said about each field (`Record.build`).
-/

namespace WatchedStore.Json

namespace Reader

/-- Takes a value of another form than the wanted one and says so. -/
def mismatch (expected : String) : Reader α :=
  let refuse (found : Found) : Reader α := stopUnplaced (.invalidType found expected)
  placing do
    match ← peek with
    | some 0x6E => skip; wordRest "ull"; refuse .null
    | some 0x74 => skip; wordRest "rue"; refuse (.bool true)
    | some 0x66 => skip; wordRest "alse"; refuse (.bool false)
    | some 0x2D => skip; refuse (.number (← number false))
    | some 0x22 => skip; refuse (.string (← stringRest))
    | some 0x5B => refuse .array
    | some 0x7B => refuse .object
    | some b => if isDigit b then refuse (.number (← number true)) else stopAhead .expectedValue
    | none => stopAhead .expectedValue

/-- The first byte of a value. -/
def valueStart : Reader UInt8 := do
  match ← peekPastBlanks with
  | some b => return b
  | none => stopAhead .endInValue

/-- A number, judged by `accept`, whose refusal is placed behind it. -/
def numberAs (expected : String) (accept : Number → Reader α) : Reader α := do
  let b ← valueStart
  if b = 0x2D then placing do skip; accept (← number false)
  else if isDigit b then placing do accept (← number true)
  else mismatch expected

/-- A natural number up to a limit. -/
def naturalUpTo (limit : Nat) (expected : String) : Reader UInt64 :=
  numberAs expected fun
    | .natural n =>
      if n.toNat ≤ limit then return n else stopUnplaced (.invalidValue (.number (.natural n)) expected)
    | .negative n => stopUnplaced (.invalidValue (.number (.negative n)) expected)
    | .double x => stopUnplaced (.invalidType (.number (.double x)) expected)

/-- An unsigned 64-bit integer. -/
def unsigned : Reader UInt64 := naturalUpTo 0xFFFFFFFFFFFFFFFF "u64"

/-- A size. -/
def size : Reader Nat := UInt64.toNat <$> naturalUpTo 0xFFFFFFFFFFFFFFFF "usize"

/-- An unsigned 32-bit integer. -/
def unsigned32 : Reader UInt32 := (fun n => n.toUInt32) <$> naturalUpTo 0xFFFFFFFF "u32"

/-- An unsigned 8-bit integer. -/
def byte : Reader UInt8 := (fun n => n.toUInt8) <$> naturalUpTo 0xFF "u8"

/-- A signed 64-bit integer. -/
def signed : Reader Int64 :=
  numberAs "i64" fun
    | .natural n =>
      if n.toNat < 0x8000000000000000 then return n.toInt64
      else stopUnplaced (.invalidValue (.number (.natural n)) "i64")
    | .negative n => return n
    | .double x => stopUnplaced (.invalidType (.number (.double x)) "i64")

/-- A double; integers are rounded to one. -/
def double : Reader Float :=
  numberAs "f64" fun
    | .natural n => return n.toFloat
    | .negative n => return n.toFloat
    | .double x => return x

/-- A truth value. -/
def boolean : Reader Bool := do
  match ← valueStart with
  | 0x74 => skip; wordRest "rue"; return true
  | 0x66 => skip; wordRest "alse"; return false
  | _ => mismatch "a boolean"

/-- A string. -/
def string : Reader String := do
  match ← valueStart with
  | 0x22 => skip; stringRest
  | _ => mismatch "a string"

/-- `null`, or a value. -/
def optional (r : Reader α) : Reader (Option α) := do
  if (← peekPastBlanks) == some 0x6E then
    skip
    wordRest "ull"
    return none
  else return some (← r)

/-! ## Containers -/

/-- Goes to the next item of an array: whether there is one. -/
def nextItem (first : Bool) : Reader Bool := do
  match ← peekPastBlanks with
  | none => stopAhead .endInList
  | some 0x5D => return false
  | some b =>
    if first then return true
    else if b = 0x2C then
      skip
      match ← peekPastBlanks with
      | some 0x5D => stopAhead .trailingComma
      | some _ => return true
      | none => stopAhead .endInValue
    else stopAhead .expectedListCommaOrEnd

/-- Closes an array, in which nothing may be left. -/
def closeArray : Reader Unit := do
  match ← peekPastBlanks with
  | some 0x5D => skip
  | some 0x2C =>
    skip
    match ← peekPastBlanks with
    | some 0x5D => stopAhead .trailingComma
    | _ => stopAhead .trailingCharacters
  | some _ => stopAhead .trailingCharacters
  | none => stopAhead .endInList

/-- Takes the name of a member, the first byte of which is shown. -/
def memberName : Option UInt8 → Reader (Option String)
  | some 0x22 => do
    skip
    return some (← stringRest)
  | some 0x7D => stopAhead .trailingComma
  | some _ => stopAhead .keyMustBeString
  | none => stopAhead .endInValue

/-- Goes to the next member of an object and takes its name. -/
def nextName (first : Bool) : Reader (Option String) := do
  match ← peekPastBlanks with
  | none => stopAhead .endInObject
  | some 0x7D => return none
  | some b =>
    if first then
      if b = 0x22 then memberName (some b) else stopAhead .keyMustBeString
    else if b = 0x2C then
      skip
      memberName (← peekPastBlanks)
    else stopAhead .expectedObjectCommaOrEnd

/-- Closes an object, in which nothing may be left. -/
def closeObject : Reader Unit := do
  match ← peekPastBlanks with
  | some 0x7D => skip
  | some 0x2C => stopAhead .trailingComma
  | some _ => stopAhead .trailingCharacters
  | none => stopAhead .endInObject

/-- The items of an array, in their order. -/
def items (r : Reader α) : Nat → Bool → Reader (List α)
  | 0, _ => stopAhead .endInList
  | fuel + 1, first => do
    if ← nextItem first then
      let a ← r
      return a :: (← items r fuel false)
    else return []

/-- An array of values of one form. -/
def array (r : Reader α) : Reader (List α) := do
  match ← valueStart with
  | 0x5B =>
    skip
    placing (closing (do items r ((← rest).length + 1) true) closeArray)
  | _ => mismatch "a sequence"

/-- The members of an object, in their order. -/
def members (r : Reader α) : Nat → Bool → Reader (List (String × α))
  | 0, _ => stopAhead .endInObject
  | fuel + 1, first => do
    match ← nextName first with
    | none => return []
    | some name =>
      colon
      let a ← r
      return (name, a) :: (← members r fuel false)

/-- An object with values of one form. -/
def map (r : Reader α) : Reader (List (String × α)) := do
  match ← valueStart with
  | 0x7B =>
    skip
    placing (closing (do members r ((← rest).length + 1) true) closeObject)
  | _ => mismatch "a map"

end Reader

/-! ## Records -/

/-- A field: its name, how its value changes the record, and the change where it is left out. A field
without the latter has to be there. -/
structure Field (σ : Type) where
  name : String
  read : Reader (σ → σ)
  absent : Option (σ → σ)

/-- A field that sets a part of the record, perhaps with a default. -/
def Field.of (name : String) (r : Reader α) (set : α → σ → σ) (default? : Option α) : Field σ :=
  ⟨name, set <$> r, default?.map set⟩

/-- A record: what it is called, the value that reading starts from, and its fields, which together
overwrite all of that value. -/
structure Record (σ : Type) where
  expected : String
  blank : σ
  fields : List (Field σ)

namespace Record

open Reader

/-- The record of the changes that an object gave by the names of fields; the other fields change it as
they do where they are left out. -/
def build (r : Record σ) (given : List (String × (σ → σ))) : Except Fault σ :=
  r.fields.foldlM (fun value f =>
    match (given.lookup f.name).or f.absent with
    | some change => .ok (change value)
    | none => .error (.missingField f.name)) r.blank

/-- Reads the members of an object into a record; `given` are the changes read so far. -/
def readMembers (r : Record σ) : Nat → Bool → List (String × (σ → σ)) → Reader σ
  | 0, _, _ => stopAhead .endInObject
  | fuel + 1, first, given => do
    match ← nextName first with
    | none =>
      match r.build given with
      | .ok value => return value
      | .error f => stopUnplaced f
    | some name =>
      match r.fields.find? (·.name == name) with
      | some f =>
        if (given.lookup name).isSome then stopUnplaced (.duplicateField name)
        else
          colon
          let change ← f.read
          readMembers r fuel false ((name, change) :: given)
      | none =>
        colon
        skipValue
        readMembers r fuel false given

/-- Reads the items of an array into the fields, `count` of which have been read. -/
def readItems (r : Record σ) : List (Field σ) → Nat → σ → Reader σ
  | [], _, value => return value
  | f :: more, count, value => do
    if ← nextItem (count = 0) then
      let change ← f.read
      readItems r more (count + 1) (change value)
    else
      match f.absent with
      | some change => readItems r more count (change value)
      | none =>
        stopUnplaced (.invalidLength count (r.expected ++ " with " ++ Numeral.text r.fields.length
          ++ " elements"))

/-- Reads a record from an object or an array. -/
def read (r : Record σ) : Reader σ := do
  match ← valueStart with
  | 0x5B =>
    skip
    placing (closing (readItems r r.fields 0 r.blank) closeArray)
  | 0x7B =>
    skip
    placing (closing (do readMembers r ((← rest).length + 1) true []) closeObject)
  | _ => mismatch r.expected

end Record

end WatchedStore.Json
