import WatchedStore.Event
import WatchedStore.Text.Numeral

/-!
# Log filters

A filter is a list of directives. Each sets, for the parts whose path starts with a target or for all
parts, the least important level that is shown, or shows nothing. Of the directives that apply to a part
the one with the longest target decides, and the last one of those. What no directive applies to is not
shown.
-/

namespace WatchedStore

/-- What a filter lets through: events up to a level of the parts whose path starts with the target. -/
structure Directive where
  /-- `none` stands for every part. -/
  target : Option String
  /-- `none` lets nothing through. -/
  level : Option Level
  deriving DecidableEq

/-- A list of directives. -/
abbrev LogFilter := List Directive

namespace Directive

/-- Whether a directive applies to a part. -/
def applies (d : Directive) (source : String) : Bool :=
  d.target.all fun t => t.toList.isPrefixOf source.toList

/-- The longer the target, the closer the directive fits; one for every part fits least. -/
def closeness (d : Directive) : Nat := d.target.elim 0 fun t => t.utf8ByteSize + 1

/-- Whether a directive lets a level through. -/
def admits (d : Directive) (level : Level) : Bool :=
  d.level.any fun most => level.verbosity ≤ most.verbosity

/-- The level that a word names, in any case, or by its number; `some none` is silence. -/
def levelOfWord? (word : String) : Option (Option Level) :=
  match Numeral.readUnsigned (Bytes.ofText word) with
  | .ok 0 => some none
  | .ok 1 => some (some .error)
  | .ok 2 => some (some .warn)
  | .ok 3 => some (some .info)
  | .ok 4 => some (some .debug)
  | .ok 5 => some (some .trace)
  | _ =>
    if word.toLower = "off" then some none
    else ([Level.error, .warn, .info, .debug, .trace].find? (·.name == word.toUpper)).map some

/-- Whether a directive can start with a character. Every character beyond ASCII counts as a letter. -/
def canStart (c : Char) : Bool :=
  c.isAlphanum || c = '-' || c = ':' || c = '_' || 0x80 ≤ c.toNat

/-- Reads a directive: a level, a target, or a target, an equals sign and a level. A target without a
level is shown down to the least important events. -/
def parse? (text : List Char) : Option Directive :=
  let target := text.takeWhile (· != '=')
  if !text.head?.any canStart || target.contains '[' then none
  else
    match text.drop target.length with
    | [] =>
      match levelOfWord? (String.ofList target) with
      | some level => some ⟨none, level⟩
      | none => some ⟨some (String.ofList target), some .trace⟩
    | [_] => some ⟨some (String.ofList target), some .trace⟩
    | _ :: word => do return ⟨some (String.ofList target), ← levelOfWord? (String.ofList word)⟩

end Directive

namespace LogFilter

/-- One level for each of some parts, and nothing else. -/
def ofTargets (targets : List String) (level : Level) : LogFilter :=
  targets.map fun t => ⟨some t, some level⟩

/-- One level for every part. -/
def ofLevel (level : Level) : LogFilter := [⟨none, some level⟩]

/-- The directive that decides about a part. -/
def deciding? (f : LogFilter) (source : String) : Option Directive :=
  (f.filter (·.applies source)).foldl
    (fun best d => if best.any fun b => d.closeness < b.closeness then best else some d) none

/-- Whether an event is shown. -/
def shows (f : LogFilter) (e : Event) : Bool := (f.deciding? e.source).any (·.admits e.level)

/-- Reads directives between commas, empty ones left out. Without any directive errors are shown. -/
def parse? (text : String) : Option LogFilter := do
  let pieces := (text.toList.splitOn ',').filter (!·.isEmpty)
  let directives ← pieces.mapM Directive.parse?
  return if directives.isEmpty then ofLevel .error else directives

end LogFilter

end WatchedStore
