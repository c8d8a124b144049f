import WatchedStore.Cache.Region
import WatchedStore.Settings.Basic

/-!
# Cache managers

A manager makes a region when its name is first asked for, and hands out that same region from then on.
The region's prefix comes from the manager's strategy, its span from the settings: the entry of its name,
else the default, where no time at all means for good.
-/

namespace WatchedStore.Cache

/-- How a region's name becomes the prefix of its keys. -/
abbrev PrefixStrategy := String → Except Error String

namespace PrefixStrategy

/-- The name and a delimiter. -/
def delimited (delimiter : String) : PrefixStrategy := fun name => .ok (name ++ delimiter)

/-- The name and a colon. -/
def standard : PrefixStrategy := delimited ":"

/-- The name in brackets. -/
def bracketed : PrefixStrategy := fun name => .ok ("[" ++ name ++ "]")

/-- The same prefix for every name. -/
def constant (p : String) : PrefixStrategy := fun _ => .ok p

/-- No prefix at all: the strategy breaks off. -/
def failing : PrefixStrategy := fun _ => .error (.crash "prefix strategy failed")

end PrefixStrategy

/-- Makes regions and remembers them. A strategy that breaks off leaves the registry's lock poisoned. -/
structure Manager where
  settings : CacheSettings
  strategy : PrefixStrategy
  regions : Std.ExtTreeMap String Region := ∅
  poisoned : Bool := false

namespace Manager

/-- Which part reports a manager's events. -/
def source : String := "kv_atomic::cache"

/-- A manager without regions, whose prefixes end in the delimiter of its settings. -/
def ofSettings (settings : CacheSettings) : Manager :=
  { settings, strategy := .delimited settings.delimiter }

/-- Changes the strategy for the regions made from now on. -/
def withStrategy (m : Manager) (strategy : PrefixStrategy) : Manager := { m with strategy }

/-- The failure of everything that needs a poisoned registry. -/
def lockPoisoned : Error := .internal "cache registry lock poisoned"

/-- How long entries live in the region of a name; `none` means for good. -/
def expirationFor (m : Manager) (name : String) : Option Duration :=
  let d := (m.settings.expirations[name]?).getD m.settings.defaultExpiration
  if d.isZero then none else some d

/-- The region of a name as it is made at first. -/
def newRegion (m : Manager) (name : String) : Except Error Region := do
  let keyPrefix ← if m.settings.usePrefix then some <$> m.strategy name else .ok none
  return { name, keyPrefix, expiration := m.expirationFor name }

/-- The event of a region being made. -/
def created (r : Region) : Event :=
  let shown (text : Option String) : FieldValue :=
    .bare (text.elim "None" fun t => "Some(" ++ t ++ ")")
  ⟨.debug, source, "Creating cache region",
    [("cache", .quoted r.name), ("prefix", shown (r.keyPrefix.map Text.quote)),
      ("expiration", shown (r.expiration.map Duration.text))]⟩

/-- The region of a name, made if it is not there, and the manager that remembers it. -/
def region (m : Manager) (name : String) : Program τ (Except Error Region × Manager) :=
  if m.poisoned then .done (.error lockPoisoned, m)
  else
    match m.regions[name]? with
    | some r => .done (.ok r, m)
    | none =>
      match m.newRegion name with
      | .ok r =>
        .report (created r) (.done (.ok r, { m with regions := m.regions.insert name r }))
      | .error e => .done (.error e, { m with poisoned := true })

/-- The names of all regions, sorted. -/
def names (m : Manager) : Except Error (List String) :=
  if m.poisoned then .error lockPoisoned else .ok m.regions.keys

end Manager

end WatchedStore.Cache
