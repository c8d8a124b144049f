import WatchedStore.Json.Typed

/-!
# Reading documents

A document nests at most 127 deep. Of members with the same name the last one counts.
-/

namespace WatchedStore.Json

namespace Reader

/-- How many containers may be open at once, plus one. -/
def depthLimit : Nat := 128

/-- Enters a container, if the limit allows another one. -/
def entering (depth : Nat) (body : Reader α) (close : Reader Unit) : Reader α := do
  if depth ≤ 1 then stopAhead .recursionLimit
  skip
  placing (closing body close)

mutual

/-- A value; `depth` counts what is left of the nesting limit, the fuel bounds the bytes that are
left. -/
def documentAt : Nat → Nat → Reader Document
  | 0, _ => stopAhead .endInValue
  | fuel + 1, depth => do
    let b ← valueStart
    if b = 0x2D then
      skip
      return .number (← number false)
    else if isDigit b then return .number (← number true)
    else
      match b with
      | 0x6E => skip; wordRest "ull"; return .null
      | 0x74 => skip; wordRest "rue"; return .bool true
      | 0x66 => skip; wordRest "alse"; return .bool false
      | 0x22 => skip; return .string (← stringRest)
      | 0x5B => return .array (← entering depth (documentItems fuel (depth - 1) true) closeArray)
      | 0x7B =>
        let members ← entering depth (documentMembers fuel (depth - 1) true) closeObject
        return .object (sortMembers members)
      | _ => stopAhead .expectedValue

/-- The items of an array. -/
def documentItems : Nat → Nat → Bool → Reader (List Document)
  | 0, _, _ => stopAhead .endInList
  | fuel + 1, depth, first => do
    if ← nextItem first then
      let d ← documentAt fuel depth
      return d :: (← documentItems fuel depth false)
    else return []

/-- The members of an object. -/
def documentMembers : Nat → Nat → Bool → Reader (List (String × Document))
  | 0, _, _ => stopAhead .endInObject
  | fuel + 1, depth, first => do
    match ← nextName first with
    | none => return []
    | some name =>
      colon
      let d ← documentAt fuel depth
      return (name, d) :: (← documentMembers fuel depth false)

end

/-- A document of any form. Each byte is taken by at most two turns. -/
def document : Reader Document := do
  documentAt (2 * (← rest).length + 2) depthLimit

end Reader

/-- The document that a text spells. -/
def Document.parse (text : Bytes) : Except Problem Document := Reader.document.run text

end WatchedStore.Json
