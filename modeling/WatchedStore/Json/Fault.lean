import WatchedStore.Text.Quoted
import WatchedStore.Json.Document

/-!
# What can be wrong with a JSON text

A fault is a cause; a `Problem` adds the line and the column at which reading stopped. Columns count
bytes.
-/

namespace WatchedStore.Json

/-- The kind of value that was met where another one was wanted. -/
inductive Found where
  | null
  | bool (b : Bool)
  | number (n : Number)
  | string (s : String)
  | array
  | object

/-- The kind in words. -/
def Found.message : Found → String
  | .null => "null"
  | .bool b => "boolean `" ++ (if b then "true" else "false") ++ "`"
  | .number (.natural n) => "integer `" ++ Numeral.text n.toNat ++ "`"
  | .number (.negative n) => "integer `" ++ Numeral.text n.toInt ++ "`"
  | .number (.double x) => "floating point `" ++ doubleText x ++ "`"
  | .string s => "string " ++ Text.quote s
  | .array => "sequence"
  | .object => "map"

/-- A cause of failure. -/
inductive Fault where
  | endInList
  | endInObject
  | endInString
  | endInValue
  | expectedColon
  | expectedListCommaOrEnd
  | expectedObjectCommaOrEnd
  | expectedIdent
  | expectedValue
  | invalidEscape
  | invalidNumber
  | numberOutOfRange
  | invalidCodePoint
  | controlCharacter
  | keyMustBeString
  | loneSurrogate
  | trailingComma
  | trailingCharacters
  | unexpectedEndOfEscape
  | recursionLimit
  | invalidType (found : Found) (expected : String)
  | invalidValue (found : Found) (expected : String)
  | invalidLength (length : Nat) (expected : String)
  | duplicateField (name : String)
  | missingField (name : String)

/-- The cause in words. -/
def Fault.message : Fault → String
  | .endInList => "EOF while parsing a list"
  | .endInObject => "EOF while parsing an object"
  | .endInString => "EOF while parsing a string"
  | .endInValue => "EOF while parsing a value"
  | .expectedColon => "expected `:`"
  | .expectedListCommaOrEnd => "expected `,` or `]`"
  | .expectedObjectCommaOrEnd => "expected `,` or `\x7d`"
  | .expectedIdent => "expected ident"
  | .expectedValue => "expected value"
  | .invalidEscape => "invalid escape"
  | .invalidNumber => "invalid number"
  | .numberOutOfRange => "number out of range"
  | .invalidCodePoint => "invalid unicode code point"
  | .controlCharacter => "control character (\\u0000-\\u001F) found while parsing a string"
  | .keyMustBeString => "key must be a string"
  | .loneSurrogate => "lone leading surrogate in hex escape"
  | .trailingComma => "trailing comma"
  | .trailingCharacters => "trailing characters"
  | .unexpectedEndOfEscape => "unexpected end of hex escape"
  | .recursionLimit => "recursion limit exceeded"
  | .invalidType found expected => "invalid type: " ++ found.message ++ ", expected " ++ expected
  | .invalidValue found expected => "invalid value: " ++ found.message ++ ", expected " ++ expected
  | .invalidLength length expected =>
    "invalid length " ++ Numeral.text length ++ ", expected " ++ expected
  | .duplicateField name => "duplicate field `" ++ name ++ "`"
  | .missingField name => "missing field `" ++ name ++ "`"

/-- A fault and the place where reading stopped. -/
structure Problem where
  fault : Fault
  line : Nat
  column : Nat

/-- Fault and place in one sentence. -/
def Problem.message (p : Problem) : String :=
  p.fault.message ++ " at line " ++ Numeral.text p.line ++ " column " ++ Numeral.text p.column

/-- Fault and place as a record. -/
def Problem.debugText (p : Problem) : String :=
  "Error(" ++ Text.quote p.fault.message ++ ", line: " ++ Numeral.text p.line ++ ", column: "
    ++ Numeral.text p.column ++ ")"

/-- The place after so many bytes of a text: lines and columns start at one and zero. -/
def Fault.placed (f : Fault) (text : Bytes) (consumed : Nat) : Problem :=
  let before := text.take consumed
  { fault := f
    line := 1 + before.count 0x0A
    column := (before.reverse.takeWhile (· != 0x0A)).length }

end WatchedStore.Json
