import WatchedStore.Text.Numeral
import WatchedStore.Decimal.Layout

/-!
# JSON documents

A document's objects hold each name once, in the order of the names' bytes. An integer in the range of
64-bit words stays exact; every other number is a double. `Document.text` writes a document without
blanks.
-/

namespace WatchedStore.Json

/-- A number: a natural or negative integer of 64 bits, or a double. -/
inductive Number where
  | natural (n : UInt64)
  | negative (n : Int64)
  | double (x : Float)

/-- A JSON document. -/
inductive Document where
  | null
  | bool (b : Bool)
  | number (n : Number)
  | string (s : String)
  | array (items : List Document)
  | object (members : List (String × Document))

instance : Inhabited Document := ⟨.null⟩

/-- Puts a member into a sorted list of members; an older one of the same name gives way. -/
def insertMember (name : String) (value : α) : List (String × α) → List (String × α)
  | [] => [(name, value)]
  | (other, old) :: rest =>
    match compare name other with
    | .lt => (name, value) :: (other, old) :: rest
    | .eq => (name, value) :: rest
    | .gt => (other, old) :: insertMember name value rest

/-- Members in the order of their names, the last of several with one name. -/
def sortMembers (members : List (String × α)) : List (String × α) :=
  members.foldl (fun sorted (name, value) => insertMember name value sorted) []

/-! ## Writing -/

/-- Exponents from -5 to 15 are written positionally, and a fraction is always kept. -/
def numberLayout : Decimal.Layout := ⟨-5, 15, true, true⟩

/-- A finite double as text. -/
def doubleText (x : Float) : String := String.ofList (numberLayout.double x)

/-- The characters of a number; a double that is not finite has none and becomes `null`. -/
def Number.characters : Number → List Char
  | .natural n => Numeral.characters n.toNat
  | .negative n => Numeral.characters n.toInt
  | .double x => if x.isFinite then numberLayout.double x else ['n', 'u', 'l', 'l']

/-- The characters for one character inside a JSON string: only the quote, the backslash and the
controls below U+0020 are escaped. -/
def escapeChar (c : Char) : List Char :=
  match c with
  | '"' => ['\\', '"']
  | '\\' => ['\\', '\\']
  | '\x08' => ['\\', 'b']
  | '\x0c' => ['\\', 'f']
  | '\n' => ['\\', 'n']
  | '\r' => ['\\', 'r']
  | '\t' => ['\\', 't']
  | _ =>
    if c.toNat < 0x20 then
      ['\\', 'u', '0', '0', Nat.digitChar (c.toNat / 16), Nat.digitChar (c.toNat % 16)]
    else [c]

/-- A JSON string. -/
def stringCharacters (s : String) : List Char :=
  '"' :: s.toList.flatMap escapeChar ++ ['"']

/-- Pieces with commas between them. -/
def commaSeparated (pieces : List (List Char)) : List Char := [','].intercalate pieces

mutual

/-- The characters of a document, without blanks. -/
def Document.characters : Document → List Char
  | .null => ['n', 'u', 'l', 'l']
  | .bool true => ['t', 'r', 'u', 'e']
  | .bool false => ['f', 'a', 'l', 's', 'e']
  | .number n => n.characters
  | .string s => stringCharacters s
  | .array items => '[' :: commaSeparated (itemCharacters items) ++ [']']
  | .object members => '\x7b' :: commaSeparated (memberCharacters members) ++ ['\x7d']

/-- The characters of each item of an array. -/
def itemCharacters : List Document → List (List Char)
  | [] => []
  | d :: rest => d.characters :: itemCharacters rest

/-- The characters of each member of an object. -/
def memberCharacters : List (String × Document) → List (List Char)
  | [] => []
  | (name, d) :: rest => (stringCharacters name ++ ':' :: d.characters) :: memberCharacters rest

end

/-- A document as text. -/
def Document.text (d : Document) : String := String.ofList d.characters

/-- A document as bytes. -/
def Document.encode (d : Document) : Bytes := Bytes.ofText d.text

/-- An integer as a document. -/
def Document.ofInt64 (n : Int64) : Document :=
  if n < 0 then .number (.negative n) else .number (.natural n.toUInt64)

/-- A double as a document; one that is not finite has no JSON form and becomes `null`. -/
def Document.ofDouble (x : Float) : Document := if x.isFinite then .number (.double x) else .null

end WatchedStore.Json
