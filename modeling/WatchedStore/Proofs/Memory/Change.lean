import WatchedStore.Memory.Store
import WatchedStore.Proofs.Memory.Rule

/-!
# What an answer says was changed

Whether a call changed a key can be read off its answer: a write that succeeded changed its key, be it by
an equal value; a question of the kind "was there anything to change" changed it if the answer is yes; a
batch and a commit changed what their commands changed by their replies. Reads, watches, refused commits
and failures changed nothing.

**The law** (`ofCommand_shows`, and one lemma for each rule): a rule touches its key exactly if the answer
says so. What it erases without a touch is an empty set, and nothing else: where no set is empty, the
answers show all that happens.
-/

namespace WatchedStore

/-- **Whether a queued command changed a key**, by its reply. -/
def Command.Changes (r : Reply) (key : String) : Command → Prop
  | .get _ => False
  | .set k .. | .increment k _ => key = k ∧ r.asError? = none
  | .expire k _ | .delete k | .setAdd k _ | .setRemove k _ => key = k ∧ r = .ofBool true

/-- Whether one of the commands of a batch changed a key, by the replies. -/
def Command.SomeChanges (commands : List Command) (replies : List Reply) (key : String) : Prop :=
  ∃ p ∈ commands.zip replies, p.1.Changes p.2 key

/-- **Whether a request changed a key**, by its answer. -/
def Request.Changes : (r : Request) → Except Error r.Answer → String → Prop
  | .get _, _, _ | .contains _, _, _ | .setMembers _, _, _ => False
  | .set k .., a, key | .getSet k _, a, key | .increment k _, a, key | .decrement k _, a, key =>
    key = k ∧ a.isOk = true
  | .expire k _, a, key | .delete k, a, key | .setAdd k _, a, key | .setRemove k _, a, key =>
    key = k ∧ a = .ok true
  | .batch commands, a, key => ∃ replies, a = .ok replies ∧ Command.SomeChanges commands replies key

/-- **Whether a call changed a key**, by its answer. -/
def Call.Changes {τ : Type} : (c : Call τ) → Except Error c.Answer → String → Prop
  | .request r, a, key => r.Changes a key
  | .exec _ commands, a, key =>
    ∃ replies, a = .ok (some replies) ∧ Command.SomeChanges commands replies key
  | .watch _, _, _ | .txGet .., _, _ | .discard _, _, _ => False

/-- The reply in the place of a command, be it carried out or not. -/
def Reply.ofAnswer : Except Error Reply → Reply
  | .ok r => r
  | .error e => .ofError e

/-- Whether a key gets a new version. -/
@[simp] def Memory.Update.Touches : Update → Prop
  | .put _ | .drop => True
  | .keep | .erase => False

/-- An entry that is no empty set. -/
def Memory.Entry.Filled (e : Entry) : Prop := ∀ set, e.value = .members set → set.isEmpty = false

namespace Memory.Rule

/-- **A rule whose answers show when it touches its key**, and that erases nothing but empty sets without a
touch. -/
def Shows (rule : Rule α) (shown : Except Error α → Prop) : Prop :=
  ∀ held full, ((rule held full).2.Touches ↔ shown (rule held full).1) ∧
    ((rule held full).2 = .erase → (rule held full).1.isOk = true ∧ ∃ e, held = some e ∧ ¬ e.Filled)

theorem get_shows : Shows get fun _ => False := by
  intro held full
  unfold get
  split <;> simp

theorem contains_shows : Shows contains fun _ => False := by
  intro held full
  simp [contains]

theorem setMembers_shows : Shows setMembers fun _ => False := by
  intro held full
  unfold setMembers
  split <;> simp

theorem set_shows (value : Bytes) (ttl : Option Duration) (now : Instant) :
    Shows (set value ttl now) fun a => a.isOk = true := by
  intro held full
  unfold set
  cases full with
  | true => simp [Except.isOk, Except.toBool]
  | false => cases State.deadline ttl now <;> simp [Except.isOk, Except.toBool]

theorem getSet_shows (value : Bytes) : Shows (getSet value) fun a => a.isOk = true := by
  intro held full
  unfold getSet
  cases (get held full).1 with
  | error e => simp [Except.isOk, Except.toBool]
  | ok previous => cases full <;> simp [Except.isOk, Except.toBool]

theorem store_shows (sum? : Option Int64) (until_ : Option Instant) {held : Option Entry} :
    ((store sum? until_).2.Touches ↔ (store sum? until_).1.isOk = true) ∧
      ((store sum? until_).2 = .erase →
        (store sum? until_).1.isOk = true ∧ ∃ e, held = some e ∧ ¬ e.Filled) := by
  cases sum? <;> simp [store, Except.isOk, Except.toBool]

theorem increment_shows (key : String) (amount : Int64) :
    Shows (increment key amount) fun a => a.isOk = true := by
  intro held full
  unfold increment
  cases held with
  | none =>
    cases full with
    | true => simp [Except.isOk, Except.toBool]
    | false => exact store_shows ..
  | some e =>
    obtain ⟨value, until_⟩ := e
    cases value with
    | members set => simp [Except.isOk, Except.toBool]
    | bytes b =>
      dsimp only
      cases Counter.decode key b with
      | error e => simp [Except.isOk, Except.toBool]
      | ok current => exact store_shows ..

theorem expire_shows (ttl : Duration) (now : Instant) :
    Shows (expire ttl now) fun a => a = .ok true := by
  intro held full
  unfold expire
  cases held with
  | none => simp
  | some e => cases State.deadline (some ttl) now <;> simp

theorem delete_shows : Shows delete fun a => a = .ok true := by
  intro held full
  cases held <;> simp [delete]

theorem setAdd_shows (member : Bytes) : Shows (setAdd member) fun a => a = .ok true := by
  intro held full
  unfold setAdd
  cases held with
  | none => cases full <;> simp
  | some e =>
    obtain ⟨value, until_⟩ := e
    cases value with
    | bytes b => simp
    | members set => cases h : set.contains member <;> simp [h]

theorem setRemove_shows (member : Bytes) : Shows (setRemove member) fun a => a = .ok true := by
  intro held full
  cases held with
  | none => simp [setRemove]
  | some e =>
    obtain ⟨value, until_⟩ := e
    cases value with
    | bytes b => simp [setRemove]
    | members set =>
      cases h : set.contains member with
      | true => cases h' : (set.erase member).isEmpty <;> simp [setRemove, h, h']
      | false =>
        rw [setRemove_of_not_contains h]
        cases h' : set.isEmpty with
        | false => simp
        | true =>
          refine ⟨by simp, fun _ => ⟨rfl, _, rfl, fun hfilled => ?_⟩⟩
          rw [hfilled set rfl] at h'
          cases h'

theorem asError?_ofError (e : Error) : (Reply.ofError e).asError? ≠ none := by
  unfold Reply.ofError
  split <;> simp [Reply.asError?]

/-- Told another way, an answer is none the less a success. -/
theorem Shows.erases_of_map {rule : Rule α} {shown : Except Error α → Prop} (h : rule.Shows shown)
    (f : α → β) {held : Option Entry} {full : Bool} (herase : (rule.map f held full).2 = .erase) :
    (rule.map f held full).1.isOk = true ∧ ∃ e, held = some e ∧ ¬ e.Filled := by
  obtain ⟨hok, hempty⟩ := (h held full).2 herase
  refine ⟨?_, hempty⟩
  unfold map
  cases hanswer : (rule held full).1 with
  | ok v => rfl
  | error e =>
    rw [hanswer] at hok
    cases hok

theorem Shows.replied {rule : Rule α} (h : rule.Shows fun a => a.isOk = true) {f : α → Reply}
    (hf : ∀ v, (f v).asError? = none) :
    (rule.map f).Shows fun a => (Reply.ofAnswer a).asError? = none := by
  intro held full
  refine ⟨(h held full).1.trans ?_, h.erases_of_map f⟩
  unfold map
  cases (rule held full).1 with
  | error e =>
    simpa [Except.map, Reply.ofAnswer, Except.isOk, Except.toBool] using asError?_ofError e
  | ok v => simp [Except.map, Reply.ofAnswer, Except.isOk, Except.toBool, hf]

theorem Shows.repliedYes {rule : Rule Bool} (h : rule.Shows fun a => a = .ok true) :
    (rule.map .ofBool).Shows fun a => Reply.ofAnswer a = .ofBool true := by
  intro held full
  refine ⟨(h held full).1.trans ?_, h.erases_of_map Reply.ofBool⟩
  unfold map
  cases (rule held full).1 with
  | error e =>
    have hne : Reply.ofError e ≠ .ofBool true := fun heq => asError?_ofError e (by rw [heq]; rfl)
    simpa [Except.map, Reply.ofAnswer] using hne
  | ok b => cases b <;> simp [Except.map, Reply.ofAnswer, Reply.ofBool]

/-- **A queued command touches its key exactly if its reply says so.** -/
theorem ofCommand_shows (now : Instant) (c : Command) :
    (ofCommand now c).Shows fun a => c.Changes (.ofAnswer a) c.key := by
  cases c <;> simp only [ofCommand, Command.Changes, Command.key, true_and]
  case get key =>
    intro held full
    exact ⟨(get_shows held full).1, get_shows.erases_of_map State.dataReply⟩
  case set key value ttl => exact Shows.replied (set_shows value ttl now) fun _ => rfl
  case increment key amount => exact Shows.replied (increment_shows key amount) fun _ => rfl
  case expire key ttl => exact Shows.repliedYes (expire_shows ttl now)
  case delete key => exact Shows.repliedYes delete_shows
  case setAdd key member => exact Shows.repliedYes (setAdd_shows member)
  case setRemove key member => exact Shows.repliedYes (setRemove_shows member)

theorem key_eq_of_changes {c : Command} {r : Reply} {key : String} (h : c.Changes r key) :
    key = c.key := by
  cases c <;> first | exact h.1 | exact h.elim

end Memory.Rule

end WatchedStore
