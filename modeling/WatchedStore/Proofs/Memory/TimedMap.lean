import Mathlib.Data.Finset.Basic
import WatchedStore.Proofs.Memory.Conflict

/-!
# A map with deadlines

This is the store as its clients may think of it: a map from keys to bytes or to sets that are not empty,
each with a deadline or without. A key whose deadline has come is absent, and that is all there is to time:
nothing is purged, there are no versions, there is no lock, and there is always room.

What an operation does is said by `Operation.apply`, for one key: what it answers, and what the key holds
afterwards. An operation that fails leaves the key alone. What bytes read as an integer is no matter of the
map and is left to `Counter.decode`.

That the store answers as this map does is proved in the next module.
-/

namespace WatchedStore.Memory

/-- What a key can hold. A set that is not empty has no name here but its members. -/
inductive Content where
  | bytes (b : Bytes)
  | members (all : Finset Bytes) (filled : all.Nonempty)

/-- What a key holds, and from when on it is absent. -/
structure Cell where
  content : Content
  deadline : Option Instant

/-- Whether a cell is there at a reading of the clock. -/
def Cell.isLive (c : Cell) (now : Instant) : Bool :=
  match c.deadline with
  | some deadline => now < deadline
  | none => true

/-- **A map with deadlines.** -/
abbrev TimedMap := String → Option Cell

namespace TimedMap

/-- What an operation answers. A set is answered as a multiset, in which no member may come twice. -/
inductive Answer where
  | value (b : Option Bytes)
  | done
  | integer (n : Int)
  | truth (b : Bool)
  | members (list : Multiset Bytes)

/-- The operations on a single key. -/
inductive Operation where
  | get
  | set (value : Bytes) (ttl : Option Duration)
  | getSet (value : Bytes)
  | increment (amount : Int64)
  | decrement (amount : Int64)
  | expire (ttl : Duration)
  | contains
  | delete
  | setAdd (member : Bytes)
  | setRemove (member : Bytes)
  | setMembers

/-- A set under a deadline, or nothing if it is empty. -/
def cellOf (all : Finset Bytes) (deadline : Option Instant) : Option Cell :=
  if h : all.Nonempty then some ⟨.members all h, deadline⟩ else none

/-- A sum of 64 bits in place of an integer. -/
def total (n : Int) (deadline : Option Instant) (held : Option Cell) :
    Except Error Answer × Option Cell :=
  if -0x8000000000000000 ≤ n ∧ n < 0x8000000000000000 then
    (.ok (.integer n), some ⟨.bytes (Numeral.encode n), deadline⟩)
  else (.error .overflow, held)

/-- Adds to an integer and keeps its deadline; nothing counts as zero. -/
def add (key : String) (amount : Int) (held : Option Cell) : Except Error Answer × Option Cell :=
  match held with
  | none => total amount none held
  | some ⟨.bytes b, deadline⟩ =>
    match Counter.decode key b with
    | .ok n => total (n.toInt + amount) deadline held
    | .error _ => (.error .notAnInteger, held)
  | some ⟨.members .., _⟩ => (.error .wrongType, held)

/-- **What an operation answers, and what its key holds afterwards**, by what the key holds at the reading
of the clock. -/
def Operation.apply (now : Instant) (key : String) (op : Operation) (held : Option Cell) :
    Except Error Answer × Option Cell :=
  match op, held with
  | .get, none => (.ok (.value none), held)
  | .get, some ⟨.bytes b, _⟩ => (.ok (.value (some b)), held)
  | .contains, _ => (.ok (.truth held.isSome), held)
  | .setMembers, none => (.ok (.members 0), held)
  | .setMembers, some ⟨.members all _, _⟩ => (.ok (.members all.val), held)
  | .set value ttl, _ => (.ok .done, some ⟨.bytes value, ttl.map (now + ·.nanoseconds)⟩)
  | .getSet value, none => (.ok (.value none), some ⟨.bytes value, none⟩)
  | .getSet value, some ⟨.bytes b, _⟩ => (.ok (.value (some b)), some ⟨.bytes value, none⟩)
  | .increment amount, _ => add key amount.toInt held
  -- the smallest integer cannot be subtracted, whatever the key holds
  | .decrement amount, _ =>
    if amount = Int64.minValue then (.error .notAnInteger, held) else add key (-amount.toInt) held
  | .expire _, none => (.ok (.truth false), held)
  | .expire ttl, some c => (.ok (.truth true), some { c with deadline := some (now + ttl.nanoseconds) })
  | .delete, _ => (.ok (.truth held.isSome), none)
  | .setAdd member, none => (.ok (.truth true), cellOf {member} none)
  | .setAdd member, some ⟨.members all _, deadline⟩ =>
    (.ok (.truth (decide (member ∉ all))), cellOf (insert member all) deadline)
  | .setRemove _, none => (.ok (.truth false), held)
  | .setRemove member, some ⟨.members all _, deadline⟩ =>
    (.ok (.truth (decide (member ∈ all))), cellOf (all.erase member) deadline)
  -- bytes for a set, or a set for bytes
  | .get, some ⟨.members .., _⟩ | .getSet _, some ⟨.members .., _⟩
  | .setMembers, some ⟨.bytes _, _⟩ | .setAdd _, some ⟨.bytes _, _⟩
  | .setRemove _, some ⟨.bytes _, _⟩ => (.error .wrongType, held)

/-- **What a key holds at a reading of the clock**; from its deadline on a cell is absent. -/
def present (m : TimedMap) (now : Instant) (key : String) : Option Cell :=
  (m key).filter fun c => c.isLive now

/-- Something that happens: an operation on a key, or a clean-up. -/
inductive Step where
  | operate (key : String) (op : Operation)
  | cleanUp

/-- The map after something has happened. To the map a clean-up is nothing. -/
def perform (now : Instant) (m : TimedMap) : Step → TimedMap
  | .operate key op => fun k => if k = key then (op.apply now key (m.present now key)).2 else m k
  | .cleanUp => m

/-- The map after a run. -/
def after (m : TimedMap) : List (Instant × Step) → TimedMap
  | [] => m
  | (now, step) :: rest => (m.perform now step).after rest

/-- **The answers to the operations of a run.** -/
def answers (m : TimedMap) : List (Instant × Step) → List (Except Error Answer)
  | [] => []
  | (now, .operate key op) :: rest =>
    (op.apply now key (m.present now key)).1 :: (m.perform now (.operate key op)).answers rest
  | (_, .cleanUp) :: rest => m.answers rest

/-- Whether something that happens is an operation. -/
def Step.isOperation : Step → Bool
  | .operate .. => true
  | .cleanUp => false

/-- A run without its clean-ups. -/
def operations (run : List (Instant × Step)) : List (Instant × Step) :=
  run.filter fun event => event.2.isOperation

/-- The map in which there is nothing. -/
def empty : TimedMap := fun _ => none

/-- The span of time that an operation sets a deadline by. -/
def Operation.ttl? : Operation → Option Duration
  | .set _ ttl => ttl
  | .expire ttl => some ttl
  | _ => none

/-- Whether the clock can show every deadline in the map. -/
def Representable (m : TimedMap) : Prop :=
  ∀ key c deadline, m key = some c → c.deadline = some deadline →
    deadline / 1000000000 < 0x8000000000000000

/-! ## Deadlines -/

variable {now deadline : Instant} {key : String} {held : Option Cell} {c : Cell} {m : TimedMap}

theorem total_deadline {n : Int} {kept : Option Instant}
    (h : (total n kept held).2 = some c) (hd : c.deadline = some deadline) :
    kept = some deadline ∨ ∃ c', held = some c' ∧ c'.deadline = some deadline := by
  unfold total at h
  split at h
  · cases h
    exact .inl hd
  · exact .inr ⟨c, h, hd⟩

theorem add_deadline {amount : Int} (h : (add key amount held).2 = some c)
    (hd : c.deadline = some deadline) : ∃ c', held = some c' ∧ c'.deadline = some deadline := by
  unfold add at h
  split at h
  · rcases total_deadline h hd with h | h
    · cases h
    · exact h
  · split at h
    · rcases total_deadline h hd with h | h
      · exact ⟨_, rfl, h⟩
      · exact h
    · exact ⟨c, h, hd⟩
  · exact ⟨c, h, hd⟩

theorem cellOf_deadline {all : Finset Bytes} {kept : Option Instant} (h : cellOf all kept = some c) :
    c.deadline = kept := by
  unfold cellOf at h
  split at h
  · cases h
    rfl
  · cases h

/-- **An operation leaves a deadline that was there, or sets one that it was asked for.** -/
theorem Operation.deadline_of_apply {op : Operation}
    (h : (op.apply now key held).2 = some c) (hd : c.deadline = some deadline) :
    (∃ c', held = some c' ∧ c'.deadline = some deadline) ∨
      ∃ ttl, op.ttl? = some ttl ∧ deadline = now + ttl.nanoseconds := by
  cases op with
  | set value ttl =>
    cases h
    obtain ⟨span, hspan, rfl⟩ := Option.map_eq_some_iff.mp hd
    exact .inr ⟨span, hspan, rfl⟩
  | expire ttl =>
    cases held with
    | none => cases h
    | some c' =>
      cases h
      cases hd
      exact .inr ⟨ttl, rfl, rfl⟩
  | increment amount => exact .inl (add_deadline h hd)
  | decrement amount =>
    rw [Operation.apply] at h
    split at h
    · exact .inl ⟨c, h, hd⟩
    · exact .inl (add_deadline h hd)
  | delete => cases h
  | getSet value =>
    rcases held with _ | ⟨_ | _, _⟩
    · cases h
      cases hd
    · cases h
      cases hd
    · exact .inl ⟨c, h, hd⟩
  | setAdd member =>
    rcases held with _ | ⟨_ | _, _⟩
    · have hnone : c.deadline = none := cellOf_deadline (show cellOf {member} none = some c from h)
      rw [hd] at hnone
      cases hnone
    · exact .inl ⟨c, h, hd⟩
    · exact .inl ⟨_, rfl, (cellOf_deadline h).symm.trans hd⟩
  | setRemove member =>
    rcases held with _ | ⟨_ | _, _⟩
    · cases h
    · exact .inl ⟨c, h, hd⟩
    · exact .inl ⟨_, rfl, (cellOf_deadline h).symm.trans hd⟩
  | _ =>
    refine .inl ⟨c, ?_, hd⟩
    rcases held with _ | ⟨_ | _, _⟩ <;> exact h

/-- A step that sets no deadline that the clock cannot show leaves none in the map. -/
theorem representable_perform (hm : m.Representable) {step : Step}
    (h : ∀ key op ttl, step = .operate key op → op.ttl? = some ttl →
      (Instant.after? now ttl).isSome = true) :
    (m.perform now step).Representable := by
  cases step with
  | cleanUp => exact hm
  | operate key op =>
    intro k c deadline hc hd
    unfold perform at hc
    dsimp only at hc
    split at hc
    · rcases op.deadline_of_apply hc hd with ⟨c', hc', hd'⟩ | ⟨ttl, httl, rfl⟩
      · exact hm key c' deadline (Option.filter_eq_some_iff.mp hc').1 hd'
      · by_contra hlong
        have hshown := h key op ttl rfl httl
        rw [Instant.after?, if_neg hlong] at hshown
        cases hshown
    · exact hm k c deadline hc hd

/-- **A run whose spans of time end where the clock has a reading** leaves no deadline in the map that it
cannot show. -/
theorem representable_after {run : List (Instant × Step)} (hm : m.Representable)
    (h : ∀ now key op ttl, (now, .operate key op) ∈ run → op.ttl? = some ttl →
      (Instant.after? now ttl).isSome = true) :
    (m.after run).Representable := by
  induction run generalizing m with
  | nil => exact hm
  | cons event rest ih =>
    refine ih (representable_perform hm fun key op ttl hstep => ?_) fun now key op ttl hmem => ?_
    · exact h event.1 key op ttl (hstep ▸ List.mem_cons_self)
    · exact h now key op ttl (List.mem_cons_of_mem _ hmem)

/-! ## Clean-ups -/

/-- The answers to a run without its clean-ups are the same. -/
theorem answers_operations (m : TimedMap) (run : List (Instant × Step)) :
    m.answers (operations run) = m.answers run := by
  induction run generalizing m with
  | nil => rfl
  | cons event rest ih =>
    obtain ⟨now, step⟩ := event
    cases step with
    | operate key op => exact congrArg (List.cons _) (ih _)
    | cleanUp => exact ih m

/-! ## The same run on a store -/

/-- An operation as it is asked of a store. -/
def Operation.request (key : String) : Operation → Request
  | .get => .get key
  | .set value ttl => .set key value ttl
  | .getSet value => .getSet key value
  | .increment amount => .increment key amount
  | .decrement amount => .decrement key amount
  | .expire ttl => .expire key ttl
  | .contains => .contains key
  | .delete => .delete key
  | .setAdd member => .setAdd key member
  | .setRemove member => .setRemove key member
  | .setMembers => .setMembers key

/-- What a store's answer says, whatever the order of a list of members. -/
def Operation.told (key : String) : (op : Operation) → (op.request key).Answer → Answer
  | .get, b | .getSet _, b => .value b
  | .set .., _ => .done
  | .increment _, n | .decrement _, n => .integer (Int64.toInt n)
  | .expire _, b | .contains, b | .delete, b | .setAdd _, b | .setRemove _, b => .truth b
  | .setMembers, list => .members (Multiset.ofList list)

/-- What happens to a store. -/
def Step.deed : Step → Deed
  | .operate key op => .call (.request (op.request key))
  | .cleanUp => .cleanUp

/-- A run as it happens to a store. -/
def deeds (run : List (Instant × Step)) : List (Instant × Deed) :=
  run.map fun (now, step) => (now, step.deed)

end TimedMap

/-- **The answers of a store to the operations of a run.** -/
def Store.answers (s : Store) : List (Instant × TimedMap.Step) → List (Except Error TimedMap.Answer)
  | [] => []
  | (now, .operate key op) :: rest =>
    (s.request now (op.request key)).1.map (op.told key) ::
      (s.request now (op.request key)).2.answers rest
  | (now, .cleanUp) :: rest => (s.perform now .cleanUp).answers rest

end WatchedStore.Memory
