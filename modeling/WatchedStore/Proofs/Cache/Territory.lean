import WatchedStore.Proofs.Cache.Operation
import WatchedStore.Proofs.Clients.Reliance
import WatchedStore.Proofs.Memory.Footprint

/-!
# The keys of a region

Whatever is asked of a region, it touches its tracking key and storage keys, and no other key (`Owns`). A
call that it makes stores and removes entries under certain keys (`Makes`); which ones a clearing removes
rests on what it is told before, the members of the tracking set (`Hears`).

**The laws**: a call of a region leaves keys alone that are none of its commands' (`Makes.keeps`), and adds
to the tracking set only what it stores (`Makes.lists`). So the members of the set are known from what was
put before.
-/

namespace WatchedStore.Cache

open Memory WatchedStore.Action

namespace Region

/-- Whether a key is one that a region stores entries under. -/
def IsStorageKey (r : Region) (k : String) : Prop := ∃ key, k = r.storageKey key

/-- **The keys that a region touches.** -/
def Owns (r : Region) (k : String) : Prop := k = r.trackingKey ∨ r.IsStorageKey k

/-- **The calls that a region makes** that stores entries under some keys and removes them under others. -/
inductive Makes (r : Region) (stores removes : String → Prop) : Call Transaction → Prop
  | members : Makes r stores removes (.request (.setMembers r.trackingKey))
  | get (key : String) : Makes r stores removes (.request (.get (r.storageKey key)))
  | put (key : String) (json : Bytes) (h : stores (r.storageKey key)) :
    Makes r stores removes (.request (.batch (r.putCommands key json)))
  | remove (keys : List String) (h : ∀ k ∈ keys, removes k) :
    Makes r stores removes (.request (.batch (r.removals keys)))

/-- What a region is told about its tracking set: that the members are keys of that kind. -/
def Hears (r : Region) (removes : String → Prop) : (c : Call Transaction) → Except Error c.Answer → Prop
  | .request (.setMembers key), .ok members => key = r.trackingKey →
    ∃ keys : List String, (∀ k ∈ keys, removes k) ∧ members = keys.map Bytes.ofText
  | _, _ => True

end Region

open Region

variable {r : Region} {stores removes : String → Prop} {now : Instant}

/-! ## What a region asks for -/

theorem finish_makes {α : Type} {commands : List Command} (event : Event)
    (h : r.Makes stores removes (.request (.batch commands))) :
    Relies (r.Makes stores removes) (r.Hears removes) (finish (α := α) commands event) := by
  refine .call h fun a _ => ?_
  obtain ⟨result, hrest | hrest⟩ := finish_concludes event a
  · exact hrest ▸ .done
  · exact hrest ▸ .report .done

/-- **What is asked of a region stores what is put**, and removes what is evicted or listed. -/
theorem Operation.makes {α : Type} (codec : Codec α) (r : Region) (op : Operation α)
    (hput : ∀ key value, op = .put key value → stores (r.storageKey key))
    (hevict : ∀ key, op = .evict key → removes (r.storageKey key)) :
    Relies (r.Makes stores removes) (r.Hears removes) (ExceptT.run (op.action codec r)) := by
  cases op with
  | put key value =>
    rw [put_calls]
    cases codec.encode value with
    | error e => exact .done
    | ok json => exact finish_makes _ (.put key json (hput key value rfl))
  | get key =>
    rw [get_calls]
    refine .call (.get key) fun a _ => ?_
    cases a <;> exact .done
  | evict key =>
    rw [evict_calls]
    exact finish_makes _ (.remove _ (by simpa using hevict key rfl))
  | clear =>
    obtain ⟨event, hcalls⟩ := clear_calls (τ := Transaction) codec r
    rw [hcalls]
    refine .call .members fun a htold => ?_
    cases a with
    | error e => exact .done
    | ok members =>
      obtain ⟨keys, hkeys, rfl⟩ := htold rfl
      dsimp only [andThen]
      split
      · exact .done
      · rw [clearCommands_eq]
        exact finish_makes _ (.remove keys hkeys)

/-! ## Keys -/

theorem Region.mem_putCommands {key : String} {json : Bytes} {c : Command}
    (h : c ∈ r.putCommands key json) :
    c = .set (r.storageKey key) json r.expiration ∨
      c = .setAdd r.trackingKey (Bytes.ofText (r.storageKey key)) ∨
      ∃ ttl, r.expiration = some ttl ∧ c = .expire r.trackingKey ttl := by
  unfold putCommands at h
  cases hexpiration : r.expiration with
  | none => simpa [hexpiration] using h
  | some ttl => simpa [hexpiration, or_assoc] using h

theorem Region.mem_removals {keys : List String} {c : Command} (h : c ∈ r.removals keys) :
    ∃ k ∈ keys, c = .delete k ∨ c = .setRemove r.trackingKey (Bytes.ofText k) := by
  obtain ⟨k, hk, hc⟩ := List.mem_flatMap.mp h
  exact ⟨k, hk, by simpa using hc⟩

/-- The commands of a batch have the keys of what it stores and removes, or the tracking key. -/
theorem Region.Makes.key {commands : List Command} {c : Command}
    (h : r.Makes stores removes (.request (.batch commands))) (hc : c ∈ commands) :
    c.key = r.trackingKey ∨ stores c.key ∨ removes c.key := by
  cases h with
  | put key json hkey =>
    rcases mem_putCommands hc with rfl | rfl | ⟨ttl, -, rfl⟩
    · exact .inr (.inl hkey)
    · exact .inl rfl
    · exact .inl rfl
  | remove keys hkeys =>
    obtain ⟨k, hk, rfl | rfl⟩ := mem_removals hc
    · exact .inr (.inr (hkeys k hk))
    · exact .inl rfl

/-! ## One call -/

variable {s : Store} {c : Call Transaction}

/-- **A call keeps what its commands keep** and what purges keep, a crash or a poisoned lock or not. -/
theorem Region.Makes.keeps {I : State → Prop} (hc : r.Makes stores removes c)
    (hpurge : ∀ state key, r.Owns key → I state → I (state.purge key now))
    (hcommand : ∀ commands, c = .request (.batch commands) → ∀ command ∈ commands, ∀ state, I state →
      I (state.apply command s.maxEntries now).2) (h : I s.state) : I (s.call now c).2.state := by
  cases hp : s.poisoned with
  | true =>
    rw [show (s.call now c).2 = s from Store.perform_of_poisoned now hp (.call c)]
    exact h
  | false =>
    have hbatch : ∀ commands, c = .request (.batch commands) → I (s.call now c).2.state := by
      rintro commands rfl
      rw [Store.call, batch_of_sound hp]
      exact State.applyAll_keeps (hcommand commands rfl) h
    cases hc with
    | members =>
      rw [Store.call, setMembers_of_sound hp]
      exact hpurge _ _ (.inl rfl) h
    | get key =>
      rw [Store.call, get_of_sound hp]
      exact hpurge _ _ (.inr ⟨key, rfl⟩) h
    | put key json _ => exact hbatch _ rfl
    | remove keys _ => exact hbatch _ rfl

/-- **Whether the members of a set are keys** of a kind. -/
def Lists (known : String → Prop) (held : Option Entry) : Prop :=
  ∀ x, HasMember held x → ∃ k, known k ∧ x = Bytes.ofText k

theorem Lists.later {known : String → Prop} {later : Instant} {state : State} {k : String}
    (h : Lists known (state.live now k)) (hle : now ≤ later) : Lists known (state.live later k) := by
  intro x hx
  rw [state.live_later hle] at hx
  exact h x hx.of_filter

theorem exists_keys {known : String → Prop} {texts : List Bytes}
    (h : ∀ x ∈ texts, ∃ k, known k ∧ x = Bytes.ofText k) :
    ∃ keys : List String, (∀ k ∈ keys, known k) ∧ texts = keys.map Bytes.ofText := by
  induction texts with
  | nil => exact ⟨[], by simp, rfl⟩
  | cons x rest ih =>
    obtain ⟨⟨k, hk, rfl⟩, hrest⟩ := List.forall_mem_cons.mp h
    obtain ⟨keys, hkeys, rfl⟩ := ih hrest
    exact ⟨k :: keys, List.forall_mem_cons.mpr ⟨hk, hkeys⟩, rfl⟩

/-- What a region is told about a set whose members are keys of a kind. -/
theorem Region.Makes.hears (hc : r.Makes stores removes c)
    (h : Lists removes (s.state.live now r.trackingKey)) : r.Hears removes c (s.call now c).1 := by
  cases hc with
  | members =>
    cases hp : s.poisoned with
    | true =>
      have hrefused : s.request now (.setMembers r.trackingKey) = (.error Store.lockPoisoned, s) :=
        Store.locked_of_poisoned hp (·.setMembers r.trackingKey now)
      rw [Store.call, hrefused]
      trivial
    | false =>
      rw [Store.call, setMembers_of_sound hp]
      rcases hheld : s.state.live now r.trackingKey with _ | ⟨_ | set, until_⟩
      · exact fun _ => ⟨[], by simp, rfl⟩
      · trivial
      · exact fun _ => exists_keys fun x hx => h x ⟨set, until_, hheld, Std.ExtTreeSet.mem_toList.mp hx⟩
  | _ => trivial

/-- **A call adds to a set only what it stores**, and only to the tracking set. -/
theorem Region.Makes.lists {known : String → Prop} {k : String} (hc : r.Makes stores removes c)
    (hknown : k = r.trackingKey → ∀ key, stores key → known key) (h : Lists known (s.state.live now k)) :
    Lists known ((s.call now c).2.state.live now k) := by
  refine hc.keeps (I := fun state => Lists known (state.live now k)) (fun state key _ hstate => ?_)
    (fun commands hbatch command hcommand state hstate x hx => ?_) h
  · rw [State.live_purge]
    exact hstate
  · subst hbatch
    rcases State.hasMember_of_apply hx with hbefore | rfl
    · exact hstate x hbefore
    cases hc with
    | put key json hkey =>
      obtain hset | hadd | ⟨ttl, -, hexpire⟩ := mem_putCommands hcommand
      · cases hset
      · cases hadd
        exact ⟨_, hknown rfl _ hkey, rfl⟩
      · cases hexpire
    | remove keys _ =>
      obtain ⟨_, -, hdelete | hremove⟩ := mem_removals hcommand
      · cases hdelete
      · cases hremove

end WatchedStore.Cache
