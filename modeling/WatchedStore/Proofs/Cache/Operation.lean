import WatchedStore.Cache.Manager
import WatchedStore.Proofs.Counter.Calls
import WatchedStore.Proofs.Text.Utf8

/-!
# Regions, call by call

What is asked of a region is an `Operation`. Values become JSON texts and texts become values by a `Codec`,
which is left open: a region stores and hands out bytes. Each operation is written out as a program here:
which calls it makes, and how it goes on by the answers. All but a read end in a batch; an eviction and a
clearing remove entries and their traces in the same way (`removals`), once the members that a clearing
has listed are known to be storage keys.
-/

namespace WatchedStore.Cache

open WatchedStore.Action

/-- How values become JSON texts, and how texts are read as values. -/
structure Codec (α : Type) where
  encode : α → Except Error Bytes
  reader : Json.Reader α

/-- **What is asked of a region.** -/
inductive Operation (α : Type) where
  | put (key : String) (value : α)
  | get (key : String)
  | evict (key : String)
  | clear

/-- The value that a text is read as, for a key that holds a text. -/
def Codec.decode (codec : Codec α) : Option Bytes → Except Error (Option α)
  | none => .ok none
  | some bytes =>
    match codec.reader.run bytes with
    | .ok a => .ok (some a)
    | .error p => .error (.serialization p.message)

/-- A value that is read back from its text. -/
def Codec.Returns (codec : Codec α) (value : α) : Prop :=
  ∃ json, codec.encode value = .ok json ∧ codec.reader.run json = .ok value

/-- Texts as JSON strings. -/
def Codec.text : Codec String where
  encode s := .ok (Json.Document.string s).encode
  reader := Json.Reader.string

/-- The key that an operation is about. A clearing is about no single one. -/
def Operation.key? : Operation α → Option String
  | .put key _ | .get key | .evict key => some key
  | .clear => none

/-- **What a region does when it is asked.** A value without a JSON text is not sent. Only a read answers a
value. -/
def Operation.action (codec : Codec α) (r : Region) : Operation α → Action τ (Option α)
  | .put key value => do
    r.put key (← Action.ofExcept (codec.encode value))
    return none
  | .get key => r.get codec.reader key
  | .evict key => do
    r.evict key
    return none
  | .clear => do
    r.clear
    return none

/-! ## Keys -/

namespace Region

variable {r : Region}

theorem storageKey_injective (r : Region) : Function.Injective r.storageKey := by
  intro key key' h
  have hlist := congrArg String.toList h
  simp only [storageKey, String.toList_append, List.append_cancel_left_eq] at hlist
  exact String.toList_inj.mp hlist

/-- **Behind a colon no key looks like the tracking key.** -/
theorem storageKey_ne_trackingKey (h : r.keyPrefix = some (r.name ++ ":")) (key : String) :
    r.storageKey key ≠ r.trackingKey := by
  intro heq
  have hlist := congrArg String.toList heq
  simp only [storageKey, trackingKey, h, Option.getD_some, String.toList_append, List.append_assoc,
    List.append_cancel_left_eq] at hlist
  have hfirst := congrArg List.head? hlist
  simp at hfirst

/-! ## Programs -/

/-- The commands that remove what is stored under keys, with the traces. -/
def removals (r : Region) (keys : List String) : List Command :=
  keys.flatMap fun key => [.delete key, .setRemove r.trackingKey (Bytes.ofText key)]

theorem removals_cons (r : Region) (key : String) (rest : List String) :
    r.removals (key :: rest) =
      .delete key :: .setRemove r.trackingKey (Bytes.ofText key) :: r.removals rest := rfl

theorem evictCommands_eq (r : Region) (key : String) :
    r.evictCommands key = r.removals [r.storageKey key] := rfl

/-- Members that are the bytes of keys are read back as these keys. -/
theorem clearCommands_eq (r : Region) (keys : List String) :
    r.clearCommands (keys.map Bytes.ofText) = r.removals keys := by
  simp only [clearCommands, removals, List.flatMap_map, Utf8.decodeLossy_ofText]

/-- One batch in which no command may fail, and a report. -/
def finish (commands : List Command) (event : Event) : Program τ (Except Error (Option α)) :=
  .call (.request (.batch commands)) (andThen fun replies =>
    andThen (fun _ => .report event (.done (.ok none))) (Reply.check replies))

/-- Behind its batch an operation makes no call. -/
theorem finish_concludes (event : Event) (answer : Except Error (List Reply)) :
    let rest : Program τ (Except Error (Option α)) := andThen (fun replies =>
      andThen (fun _ => .report event (.done (.ok none))) (Reply.check replies)) answer
    ∃ result, rest = .done result ∨ rest = .report event (.done result) := by
  intro rest
  cases answer with
  | error e => exact ⟨.error e, .inl rfl⟩
  | ok replies =>
    cases hcheck : Reply.check replies with
    | error e => exact ⟨.error e, .inl (by simp only [rest, andThen, hcheck])⟩
    | ok _ => exact ⟨.ok none, .inr (by simp only [rest, andThen, hcheck])⟩

theorem finish_calls (commands : List Command) (event : Event) :
    ExceptT.run (do
      (do run (τ := τ) commands; Action.report event)
      return (none : Option α)) = finish commands event := by
  refine congrArg (Program.call _) (funext fun a => ?_)
  have hchecked : ∀ checked : Except Error (List Reply),
      ExceptT.run (do
        (do discard (Action.ofExcept (τ := τ) checked); Action.report event)
        return (none : Option α)) =
      andThen (fun _ => .report event (.done (.ok none))) checked := by
    intro checked
    cases checked <;> rfl
  cases a with
  | error e => rfl
  | ok replies => exact hchecked (Reply.check replies)

end Region

namespace Operation

variable (codec : Codec α) (r : Region)

theorem put_calls (key : String) (value : α) :
    ExceptT.run ((put key value).action (τ := τ) codec r) =
      andThen (fun json => Region.finish (r.putCommands key json) (r.entryEvent "Cached value" key))
        (codec.encode value) := by
  have h : ∀ json : Except Error Bytes, ExceptT.run (do
      r.put (τ := τ) key (← Action.ofExcept json)
      return (none : Option α)) =
    andThen (fun json => Region.finish (r.putCommands key json) (r.entryEvent "Cached value" key)) json := by
    intro json
    cases json with
    | error e => rfl
    | ok json => exact Region.finish_calls _ _
  exact h _

theorem get_calls (key : String) :
    ExceptT.run ((get key : Operation α).action (τ := τ) codec r) =
      .call (.request (.get (r.storageKey key))) (andThen fun found => .done (codec.decode found)) := by
  refine congrArg (Program.call _) (funext fun a => ?_)
  have hread : ∀ text : Except Json.Problem α, ExceptT.run (match text with
      | .ok a => return some a
      | .error p => throw (.serialization p.message)) = Program.done (τ := τ) (match text with
      | .ok a => .ok (some a)
      | .error p => .error (Error.serialization p.message)) := by
    intro text
    cases text <;> rfl
  rcases a with e | _ | bytes
  · rfl
  · rfl
  · exact hread (codec.reader.run bytes)

theorem evict_calls (key : String) :
    ExceptT.run ((evict key : Operation α).action (τ := τ) codec r) =
      Region.finish (r.removals [r.storageKey key]) (r.entryEvent "Evicted value" key) :=
  Region.finish_calls _ _

theorem clear_calls :
    ∃ event : List Bytes → Event,
      ExceptT.run ((clear : Operation α).action (τ := τ) codec r) =
        .call (.request (.setMembers r.trackingKey)) (andThen fun members =>
          if members.isEmpty then .done (.ok none)
          else Region.finish (r.clearCommands members) (event members)) := by
  refine ⟨fun members => ⟨.trace, Region.source, "Cleared cache region",
    [("cache", .bare r.name), ("removed", .bare (Numeral.text members.length))]⟩,
    congrArg (Program.call _) (funext fun a => ?_)⟩
  rcases a with e | _ | ⟨member, rest⟩
  · rfl
  · rfl
  · exact Region.finish_calls _ _

end Operation

end WatchedStore.Cache
