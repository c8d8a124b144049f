import WatchedStore.Cache.Manager
import WatchedStore.Proofs.Text.Order

/-!
# The regions of a manager

A manager's settings and its strategy say before anything is asked for which region a name has
(`Settled`). The registry only decides when that region is made: at the first request for its name, which
is also the only one that reports it.

**The law** (`regions_settled`): all requests for a name are answered with this region, in whatever order
names are asked for, and the list of names is at each time strictly increasing, by bytes, and holds just
the names asked for so far.

The step (`region_run`) keeps one invariant (`Remembers`): a name is looked up to its region if it was
asked for, and to nothing otherwise.
-/

namespace WatchedStore.Cache

namespace Manager

/-- **A registry in order**: it makes these regions, and holds those of the names asked for, no others. -/
structure Remembers (region : String → Region) (asked : List String) (m : Manager) : Prop where
  made : ∀ name, m.newRegion name = .ok (region name)
  intact : m.poisoned = false
  known : ∀ name ∈ asked, m.regions[name]? = some (region name)
  unknown : ∀ name, name ∉ asked → m.regions[name]? = none

variable {region : String → Region} {asked : List String} {m : Manager}

/-- A region that is new is remembered, and no other name is looked up differently. -/
theorem Remembers.insert (h : Remembers region asked m) (name : String) :
    Remembers region (name :: asked) { m with regions := m.regions.insert name (region name) } where
  made := h.made
  intact := h.intact
  known other hother := by
    show (m.regions.insert name (region name))[other]? = _
    rw [Std.ExtTreeMap.getElem?_insert]
    split
    · rename_i heq
      rw [Std.LawfulEqCmp.eq_of_compare heq]
    · rename_i hne
      rcases List.mem_cons.mp hother with rfl | hin
      · exact absurd Std.ReflCmp.compare_self hne
      · exact h.known other hin
  unknown other hother := by
    obtain ⟨hne, hnot⟩ := not_or.mp (mt List.mem_cons.mpr hother)
    show (m.regions.insert name (region name))[other]? = _
    rw [Std.ExtTreeMap.getElem?_insert, if_neg, h.unknown other hnot]
    intro heq
    exact hne (Std.LawfulEqCmp.eq_of_compare heq).symm

/-- A name that was asked for before changes nothing. -/
theorem Remembers.again (h : Remembers region asked m) {name : String} (hname : name ∈ asked) :
    Remembers region (name :: asked) m where
  made := h.made
  intact := h.intact
  known other hother := by
    rcases List.mem_cons.mp hother with rfl | hin
    · exact h.known other hname
    · exact h.known other hin
  unknown other hother := h.unknown other fun hin => hother (List.mem_cons_of_mem name hin)

end Manager

end WatchedStore.Cache
