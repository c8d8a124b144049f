import WatchedStore.Proofs.Cache.Handles
import WatchedStore.Proofs.Clients.Piecemeal

/-!
# Operations, command by command

On a store that carries out one command at a time, a handle of a region without expiration makes commands
of four kinds (`Piece`): it stores an entry or removes it, and lists its key or takes it off the list.

**The laws**: each kind keeps the tracking set a set of keys that has no deadline (`Piece.keeps`), and does
to entries and the list what its name says (`Piece.stored`, `Piece.listed`). Whatever a client takes off the
list it has removed before, and what it stores it lists afterwards (`Operation.inOrder`).
-/

namespace WatchedStore.Cache

open Memory WatchedStore.Action

namespace Region

/-- **The commands that handles make** of a region whose entries live for good. -/
inductive Piece (r : Region) : Command → Prop
  | store (key : String) (value : Bytes) (h : key ≠ r.trackingKey) : Piece r (.set key value none)
  | track (key : String) (h : key ≠ r.trackingKey) : Piece r (.setAdd r.trackingKey (Bytes.ofText key))
  | remove (key : String) (h : key ≠ r.trackingKey) : Piece r (.delete key)
  | untrack (key : String) (h : key ≠ r.trackingKey) :
    Piece r (.setRemove r.trackingKey (Bytes.ofText key))

/-- The calls that handles make, command by command. -/
inductive AsksPiecemeal (r : Region) : Call Transaction → Prop
  | members : AsksPiecemeal r (.request (.setMembers r.trackingKey))
  | get (key : String) : AsksPiecemeal r (.request (.get key))
  | piece {c : Command} (h : r.Piece c) : AsksPiecemeal r (.request (.batch [c]))

theorem putCommands_of_forever {r : Region} (h : r.expiration = none) (key : String) (json : Bytes) :
    r.putCommands key json = [.set (r.storageKey key) json none,
      .setAdd r.trackingKey (Bytes.ofText (r.storageKey key))] := by
  rw [putCommands, h]
  rfl

theorem piece_of_mem_removals {r : Region} {keys : List String} (h : ∀ k ∈ keys, k ≠ r.trackingKey) :
    ∀ c ∈ r.removals keys, r.Piece c := by
  simp only [removals, List.mem_flatMap, List.mem_cons, List.not_mem_nil, or_false]
  rintro c ⟨key, hkey, rfl | rfl⟩
  · exact .remove key (h key hkey)
  · exact .untrack key (h key hkey)

theorem piece_of_mem_putCommands {r : Region} (hforever : r.expiration = none) {key : String} {json : Bytes}
    (h : r.storageKey key ≠ r.trackingKey) : ∀ c ∈ r.putCommands key json, r.Piece c := by
  rw [putCommands_of_forever hforever]
  exact List.forall_mem_cons.mpr ⟨.store _ _ h, List.forall_mem_singleton.mpr (.track _ h)⟩

end Region

open Region

variable {r : Region} {now : Instant}

/-! ## What clients rely on -/

theorem finish_relies_piecemeal {α : Type} {commands : List Command} (event : Event)
    (h : ∀ c ∈ commands, r.Piece c) :
    Relies r.AsksPiecemeal r.Told (finish (α := α) commands event).piecemeal := by
  refine relies_each (fun c hc => .piece (h c hc)) fun a => ?_
  obtain ⟨result, hrest | hrest⟩ := finish_concludes event a
  · exact hrest ▸ .done
  · exact hrest ▸ .report .done

/-- **What a handle does command by command relies on what it is told.** -/
theorem Operation.relies_piecemeal {α : Type} (codec : Codec α) (op : Operation α)
    (hforever : r.expiration = none)
    (hkey : ∀ key, op.key? = some key → r.storageKey key ≠ r.trackingKey) :
    Relies r.AsksPiecemeal r.Told (ExceptT.run (op.action codec r)).piecemeal := by
  cases op with
  | put key value =>
    rw [put_calls]
    cases codec.encode value with
    | error e => exact .done
    | ok json => exact finish_relies_piecemeal _ (piece_of_mem_putCommands hforever (hkey key rfl))
  | get key =>
    rw [get_calls]
    refine .call (.get _) fun a _ => ?_
    cases a <;> exact .done
  | evict key =>
    rw [evict_calls]
    exact finish_relies_piecemeal _ (piece_of_mem_removals (by simpa using hkey key rfl))
  | clear =>
    obtain ⟨event, hcalls⟩ := clear_calls (τ := Transaction) codec r
    rw [hcalls]
    refine .call .members fun a htold => ?_
    cases a with
    | error e => exact .done
    | ok members =>
      obtain ⟨keys, hkeys, rfl⟩ := htold rfl
      dsimp only [andThen]
      split
      · exact .done
      · rw [clearCommands_eq]
        exact finish_relies_piecemeal _ (piece_of_mem_removals hkeys)

/-! ## What a piece does -/

/-- **A set of keys that is kept for good**, or no set at all. -/
abbrev KeepsKeys (r : Region) (now : Instant) (m : Contents) : Prop :=
  Tracks r (fun _ => False) (· = none) now m

theorem KeepsKeys.of_same {m m' : Contents} (h : KeepsKeys r now m) (hcurrent : Current now m')
    (hsame : m' r.trackingKey = m r.trackingKey) : KeepsKeys r now m' where
  current := hcurrent
  held := hsame ▸ h.held
  ended := hsame ▸ h.ended
  listed := hsame ▸ h.listed
  tracked _ _ howned := howned.elim

theorem KeepsKeys.carry_of_ne {m : Contents} (h : KeepsKeys r now m) {c : Command}
    (hkey : r.trackingKey ≠ c.key) : KeepsKeys r now (c.carry now m) :=
  h.of_same (Command.carry_current h.current) (Command.carry_of_ne hkey)

theorem KeepsKeys.setAdd {m : Contents} (h : KeepsKeys r now m) {key : String} (hkey : key ≠ r.trackingKey) :
    let m' := (Command.setAdd r.trackingKey (Bytes.ofText key)).carry now m
    KeepsKeys r now m' ∧
      ∀ x, HasMember (m' r.trackingKey) x ↔ x = Bytes.ofText key ∨ HasMember (m r.trackingKey) x := by
  intro m'
  obtain ⟨-, set, hleaves, hmem⟩ := Command.leaves_setAdd r.trackingKey (Bytes.ofText key) h.held
    (h.current r.trackingKey)
  have hforever : (m r.trackingKey).bind Entry.deadline = none := by
    cases he : m r.trackingKey with
    | none => rfl
    | some e => exact h.ended e he
  have hset : m' r.trackingKey = some ⟨.members set, none⟩ :=
    Command.carry_self.trans (hforever ▸ hleaves)
  have hlists : ∀ x, HasMember (m' r.trackingKey) x ↔
      x = Bytes.ofText key ∨ HasMember (m r.trackingKey) x := by
    intro x
    rw [hset, ← hmem]
    exact hasMember_members
  refine ⟨⟨Command.carry_current h.current, fun e he => ?_, fun e he => ?_, fun x hx => ?_,
    fun _ _ howned => howned.elim⟩, hlists⟩
  · obtain rfl := Option.some.inj (hset.symm.trans he)
    refine ⟨set, rfl, Std.ExtTreeSet.isEmpty_eq_false_iff.mpr fun hempty => ?_⟩
    exact Std.ExtTreeSet.not_mem_empty (hempty ▸ (hmem _).mpr (.inl rfl))
  · obtain rfl := Option.some.inj (hset.symm.trans he)
    rfl
  · rcases (hlists x).mp hx with rfl | hx
    · exact ⟨key, hkey, rfl⟩
    · exact h.listed x hx

theorem KeepsKeys.setRemove {m : Contents} (h : KeepsKeys r now m) (key : String) :
    let m' := (Command.setRemove r.trackingKey (Bytes.ofText key)).carry now m
    KeepsKeys r now m' ∧
      ∀ x, HasMember (m' r.trackingKey) x ↔ x ≠ Bytes.ofText key ∧ HasMember (m r.trackingKey) x := by
  intro m'
  obtain ⟨-, hheld, hdeadline, hlists⟩ := Command.leaves_setRemove r.trackingKey (Bytes.ofText key) h.held
    (h.current r.trackingKey)
  have hset : m' r.trackingKey =
      (Command.setRemove r.trackingKey (Bytes.ofText key)).leaves now (m r.trackingKey) :=
    Command.carry_self
  rw [← hset] at hheld hdeadline hlists
  refine ⟨⟨Command.carry_current h.current, hheld, fun e he => ?_,
    fun x hx => h.listed x ((hlists x).mp hx).2, fun _ _ howned => howned.elim⟩, hlists⟩
  obtain ⟨before, hbefore, hends⟩ := hdeadline e he
  exact hends ▸ h.ended before hbefore

namespace Region.Piece

variable {c : Command} {m : Contents}

theorem keeps (hc : r.Piece c) (h : KeepsKeys r now m) : KeepsKeys r now (c.carry now m) := by
  cases hc with
  | store _ _ hkey => exact h.carry_of_ne (Ne.symm hkey)
  | track _ hkey => exact (h.setAdd hkey).1
  | remove _ hkey => exact h.carry_of_ne (Ne.symm hkey)
  | untrack key => exact (h.setRemove key).1

/-- **An entry that is seen has just been stored**, or it was there and is not removed. -/
theorem stored (hc : r.Piece c) {k : String} (hk : k ≠ r.trackingKey) (hheld : c.carry now m k ≠ none) :
    (∃ value, c = .set k value none) ∨ m k ≠ none ∧ c ≠ .delete k := by
  by_cases hkey : k = c.key
  · cases hc with
    | store key value => exact .inl ⟨value, hkey ▸ rfl⟩
    | remove key =>
      subst hkey
      exact absurd (Command.carry_self.trans (Command.leaves_delete now _ _)) hheld
    | track => exact absurd hkey hk
    | untrack => exact absurd hkey hk
  · rw [Command.carry_of_ne hkey] at hheld
    exact .inr ⟨hheld, fun heq => hkey (heq ▸ rfl)⟩

/-- **A key is listed that has just been added**, or that was listed and is not taken off. -/
theorem listed (hc : r.Piece c) (h : KeepsKeys r now m) {k : String}
    (hk : c = .setAdd r.trackingKey (Bytes.ofText k) ∨
      HasMember (m r.trackingKey) (Bytes.ofText k) ∧ c ≠ .setRemove r.trackingKey (Bytes.ofText k)) :
    HasMember (c.carry now m r.trackingKey) (Bytes.ofText k) := by
  by_cases hkey : r.trackingKey = c.key
  · cases hc with
    | store _ _ hne => exact absurd hkey.symm hne
    | remove _ hne => exact absurd hkey.symm hne
    | track key hne =>
      refine ((h.setAdd hne).2 _).mpr (hk.imp (fun heq => ?_) And.left)
      exact (Command.setAdd.inj heq).2.symm
    | untrack key =>
      obtain ⟨hk, hne⟩ := hk.resolve_left nofun
      exact ((h.setRemove key).2 _).mpr ⟨fun heq => hne (heq ▸ rfl), hk⟩
  · rw [Command.carry_of_ne hkey]
    exact (hk.resolve_left fun heq => hkey (heq ▸ rfl)).1

end Region.Piece

/-! ## One client -/

/-- **The commands of a client in their order**: whatever it takes off the list it has removed before, and
what it stores it lists afterwards. -/
structure InOrder (r : Region) (commands : List Command) : Prop where
  removed : ∀ before k after, commands = before ++ .setRemove r.trackingKey (Bytes.ofText k) :: after →
    Command.delete k ∈ before
  listed : ∀ before k value after, commands = before ++ .set k value none :: after →
    Command.setAdd r.trackingKey (Bytes.ofText k) ∈ after

theorem inOrder_nil : InOrder r [] where
  removed before _ _ h := by cases before <;> cases h
  listed before _ _ _ h := by cases before <;> cases h

theorem inOrder_put {key : String} {value member : Bytes} (hmember : member = Bytes.ofText key) :
    InOrder r [.set key value none, .setAdd r.trackingKey member] where
  removed before k after h := by
    rcases before with _ | ⟨_, _ | ⟨_, before⟩⟩
    · cases h
    · cases h
    · cases before <;> cases h
  listed before k value after h := by
    subst hmember
    rcases before with _ | ⟨_, _ | ⟨_, before⟩⟩
    · cases h
      exact List.mem_singleton_self _
    · cases h
    · cases before <;> cases h

/-- Each member is taken off the list behind the removal of its key. -/
theorem inOrder_clear (members : List Bytes) : InOrder r (r.clearCommands members) := by
  induction members with
  | nil => exact inOrder_nil
  | cons member rest ih =>
    have hcons : r.clearCommands (member :: rest) = .delete (Utf8.decodeLossy member) ::
        .setRemove r.trackingKey member :: r.clearCommands rest := rfl
    rw [hcons]
    refine ⟨fun before k after h => ?_, fun before k value after h => ?_⟩
    · rcases before with _ | ⟨_, _ | ⟨_, before⟩⟩
      · cases h
      · cases h
        rw [Utf8.decodeLossy_ofText]
        exact List.mem_singleton_self _
      · have htail := ih.removed before k after (List.cons.inj (List.cons.inj h).2).2
        exact List.mem_cons_of_mem _ (List.mem_cons_of_mem _ htail)
    · rcases before with _ | ⟨_, _ | ⟨_, before⟩⟩
      · cases h
      · cases h
      · exact ih.listed before k value after (List.cons.inj (List.cons.inj h).2).2

section Course

variable {α : Type} {t t' : Instant} {s s' : Store} {result : Except Error (Option α)} {visits : List Visit}

/-- A client that has ended has had all commands of its batch carried out. -/
theorem finish_course {commands : List Command} {event : Event}
    (h : Course t' s' (.done result) t s (finish commands event).piecemeal visits)
    (hgood : ∀ v ∈ visits, v.succeeds = true) : visits.flatMap Visit.commands = commands := by
  obtain ⟨t₁, s₁, all, own, rest, rfl, hown, hrest⟩ := course_each h hgood
  have hnil : rest = [] := by
    obtain ⟨last, hlast | hlast⟩ := finish_concludes (α := α) event (.ok all)
    · have hdone : Course t' s' (.done result) t₁ s₁ (Program.piecemeal (.done last)) rest := hlast ▸ hrest
      exact hdone.done_inv.1
    · have hreport : Course t' s' (.done result) t₁ s₁ (Program.piecemeal (.report event (.done last))) rest :=
        hlast ▸ hrest
      rcases hreport.report_inv with ⟨hnil, -⟩ | hdone
      · exact hnil
      · exact hdone.done_inv.1
  rw [hnil, List.append_nil, hown]

/-- **A client that has ended without an error has made its commands in their order.** -/
theorem Operation.inOrder {codec : Codec α} {op : Operation α} (hforever : r.expiration = none)
    (h : Course t' s' (.done result) t s (ExceptT.run (op.action codec r)).piecemeal visits)
    (hgood : ∀ v ∈ visits, v.succeeds = true) : InOrder r (visits.flatMap Visit.commands) := by
  cases op with
  | put key value =>
    rw [put_calls] at h
    cases hencode : codec.encode value with
    | error e =>
      rw [hencode] at h
      rw [h.done_inv.1]
      exact inOrder_nil
    | ok json =>
      rw [hencode] at h
      rw [finish_course h hgood, putCommands_of_forever hforever]
      exact inOrder_put rfl
  | get key =>
    rw [get_calls] at h
    rcases h.call_inv with ⟨-, hp⟩ | ⟨t₁, s₁, rest, -, rfl, hrest⟩
    · cases hp
    · generalize s₁.call t₁ (.request (.get (r.storageKey key))) = out at hrest
      obtain ⟨answer, after⟩ := out
      have hnil : rest = [] := by cases answer <;> exact hrest.done_inv.1
      rw [hnil]
      exact inOrder_nil
  | evict key =>
    rw [evict_calls] at h
    rw [finish_course h hgood, ← evictCommands_eq]
    have hclear := inOrder_clear (r := r) [Bytes.ofText (r.storageKey key)]
    rwa [show [Bytes.ofText (r.storageKey key)] = [r.storageKey key].map Bytes.ofText from rfl,
      clearCommands_eq, ← evictCommands_eq] at hclear
  | clear =>
    obtain ⟨event, hcalls⟩ := clear_calls (τ := Transaction) codec r
    rw [hcalls] at h
    rcases h.call_inv with ⟨-, hp⟩ | ⟨t₁, s₁, rest, -, rfl, hrest⟩
    · cases hp
    have hgoodRest := (List.forall_mem_cons.mp hgood).2
    have hcommands : (⟨t₁, s₁, .request (.setMembers r.trackingKey)⟩ :: rest : List Visit).flatMap
        Visit.commands = rest.flatMap Visit.commands := rfl
    rw [hcommands]
    cases hanswer : (s₁.call t₁ (.request (.setMembers r.trackingKey))).1 with
    | error e =>
      rw [hanswer] at hrest
      rw [hrest.done_inv.1]
      exact inOrder_nil
    | ok members =>
      rw [hanswer] at hrest
      dsimp only [andThen] at hrest
      split at hrest
      · rw [hrest.done_inv.1]
        exact inOrder_nil
      · rw [finish_course hrest hgoodRest]
        exact inOrder_clear members

end Course

end WatchedStore.Cache
