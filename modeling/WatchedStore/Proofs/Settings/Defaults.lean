import WatchedStore.Settings.Json
import WatchedStore.Proofs.Json.Record

/-!
# Settings and their defaults

What settings are read from an object is said twice in the program: the fields of each record bring a
default each, and the settings as a whole have standard values. Here it is said once, as a function on
documents (`overwrite?`): settings that an object overwrites where it has a member of the field's name, and
that stay what they are elsewhere. There is no result where a member has another form than its field, or
where two members have the name of the same field, and there is one for every other object
(`AnySettings.exists_overwrite`).

**The law** (`AnySettings.parse_overwrites`): whatever text spells an object that can overwrite the standard
settings, reading it gives the standard settings overwritten by it. So no field's default differs from
the standard value, the order of the members does not matter, and unknown members do not either.
-/

namespace WatchedStore

open Json Settings

/-! ## Values -/

/-- The span of a number of milliseconds. -/
def Json.Document.span? (d : Document) : Option Duration := d.natural?.map Duration.ofMillis

/-- The size that a document is. -/
def Json.Document.count? (d : Document) : Option Nat := d.natural?.map UInt64.toNat

/-- The spans of an object's members by their names, the last of those with one name. -/
def Json.Document.spans? (d : Document) : Option (Std.ExtTreeMap String Duration) :=
  (d.entries? Document.span?).map fun entries => .ofList entries

namespace Settings

theorem carries_span : Carries readDuration Document.span? := (carries_natural "u64").map _

theorem carries_spans : Carries CacheSettings.readExpirations Document.spans? := by
  intro text rest d spans hspells hspans
  obtain ⟨entries, hentries, rfl⟩ := Option.map_eq_some_iff.mp hspans
  exact (Reader.bind_of_ok (carries_span.object hspells hentries)).trans rfl

end Settings

/-! ## The five kinds -/

/-- Settings of a remote store, overwritten by an object. -/
def RemoteSettings.overwrite? (s : RemoteSettings) : Document → Option RemoteSettings
  | .object ms => do
    return {
      url := ← said ms "url" Document.text? s.url
      connectionTimeout := ← said ms "connection_timeout" Document.span? s.connectionTimeout }
  | _ => none

/-- Settings of a store in memory, overwritten by an object. -/
def MemorySettings.overwrite? (s : MemorySettings) : Document → Option MemorySettings
  | .object ms => do
    return {
      maxEntries := ← said ms "max_entries" Document.count? s.maxEntries
      cleanup := ← said ms "use_background_task" Document.truth? s.cleanup
      cleanupInterval := ← said ms "cleanup_interval" Document.span? s.cleanupInterval }
  | _ => none

/-- A retry policy, overwritten by an object. -/
def RetryPolicy.overwrite? (p : RetryPolicy) : Document → Option RetryPolicy
  | .object ms => do
    return {
      maxAttempts := ← said ms "max_attempts" Document.count? p.maxAttempts
      initialDelay := ← said ms "initial_backoff" Document.span? p.initialDelay
      maxDelay := ← said ms "max_backoff" Document.span? p.maxDelay
      multiplier := ← said ms "backoff_multiplier" Document.double? p.multiplier
      jitter := ← said ms "use_jitter" Document.truth? p.jitter }
  | _ => none

/-- Settings of a counter, overwritten by an object, whose policy overwrites theirs in turn. -/
def CounterSettings.overwrite? (s : CounterSettings) : Document → Option CounterSettings
  | .object ms => do
    return { retry := ← said ms "retry" s.retry.overwrite? s.retry }
  | _ => none

/-- Settings of a cache manager, overwritten by an object. -/
def CacheSettings.overwrite? (s : CacheSettings) : Document → Option CacheSettings
  | .object ms => do
    return {
      usePrefix := ← said ms "use_prefix" Document.truth? s.usePrefix
      delimiter := ← said ms "prefix_delimiter" Document.text? s.delimiter
      defaultExpiration := ← said ms "default_expiration" Document.span? s.defaultExpiration
      expirations := ← said ms "expires" Document.spans? s.expirations }
  | _ => none

namespace AnySettings

/-- The standard settings of the same kind. -/
def standard : AnySettings → AnySettings
  | .remote _ => .remote {}
  | .memory _ => .memory {}
  | .retry _ => .retry .standard
  | .counter _ => .counter {}
  | .cache _ => .cache {}

/-- Settings of any kind, overwritten by an object. -/
def overwrite? : AnySettings → Document → Option AnySettings
  | .remote s, d => .remote <$> s.overwrite? d
  | .memory s, d => .memory <$> s.overwrite? d
  | .retry p, d => .retry <$> p.overwrite? d
  | .counter s, d => .counter <$> s.overwrite? d
  | .cache s, d => .cache <$> s.overwrite? d

end AnySettings

/-! ## Well-typed objects -/

/-- Whether a document is an object whose members of these names have values of these forms. -/
def wellTyped (forms : List (String × (Document → Bool))) : Document → Bool
  | .object ms => forms.all fun (name, form) => fits ms name form
  | _ => false

/-- The fields of a remote store's settings and the forms of their values. -/
def RemoteSettings.forms : List (String × (Document → Bool)) := [
  ("url", Document.isString), ("connection_timeout", Document.isNatural)]

/-- The fields of the settings of a store in memory and the forms of their values. -/
def MemorySettings.forms : List (String × (Document → Bool)) := [
  ("max_entries", Document.isNatural), ("use_background_task", Document.isTruth),
  ("cleanup_interval", Document.isNatural)]

/-- The fields of a retry policy and the forms of their values. -/
def RetryPolicy.forms : List (String × (Document → Bool)) := [
  ("max_attempts", Document.isNatural), ("initial_backoff", Document.isNatural),
  ("max_backoff", Document.isNatural), ("backoff_multiplier", Document.isNumber),
  ("use_jitter", Document.isTruth)]

/-- The field of a counter's settings and the form of its value. -/
def CounterSettings.forms : List (String × (Document → Bool)) := [("retry", wellTyped RetryPolicy.forms)]

/-- The fields of a cache manager's settings and the forms of their values. -/
def CacheSettings.forms : List (String × (Document → Bool)) := [
  ("use_prefix", Document.isTruth), ("prefix_delimiter", Document.isString),
  ("default_expiration", Document.isNatural), ("expires", Document.isObjectOf Document.isNatural)]

/-- The fields of settings and the forms of their values. -/
def AnySettings.forms : AnySettings → List (String × (Document → Bool))
  | .remote _ => RemoteSettings.forms
  | .memory _ => MemorySettings.forms
  | .retry _ => RetryPolicy.forms
  | .counter _ => CounterSettings.forms
  | .cache _ => CacheSettings.forms

theorem AnySettings.forms_standard (s : AnySettings) : s.standard.forms = s.forms := by
  cases s <;> rfl

section WellTyped

variable {d : Document}

theorem exists_object {forms : List (String × (Document → Bool))} (h : wellTyped forms d = true) :
    ∃ ms, d = .object ms ∧ ∀ f ∈ forms, fits ms f.1 f.2 = true := by
  unfold wellTyped at h
  split at h
  · exact ⟨_, rfl, List.all_eq_true.mp h⟩
  · cases h

theorem exists_span (h : d.isNatural = true) : ∃ span, d.span? = some span := by
  obtain ⟨n, hn⟩ := Document.exists_natural h
  exact ⟨.ofMillis n, Option.map_eq_some_iff.mpr ⟨n, hn, rfl⟩⟩

theorem exists_count (h : d.isNatural = true) : ∃ n, d.count? = some n := by
  obtain ⟨n, hn⟩ := Document.exists_natural h
  exact ⟨n.toNat, Option.map_eq_some_iff.mpr ⟨n, hn, rfl⟩⟩

theorem exists_spans (h : d.isObjectOf Document.isNatural = true) : ∃ spans, d.spans? = some spans := by
  obtain ⟨entries, hentries⟩ := Document.exists_entries (fun _ => exists_span) h
  exact ⟨.ofList entries, Option.map_eq_some_iff.mpr ⟨entries, hentries, rfl⟩⟩

theorem RemoteSettings.exists_overwrite (s : RemoteSettings) (h : wellTyped forms d = true) :
    ∃ s', s.overwrite? d = some s' := by
  obtain ⟨ms, rfl, hfits⟩ := exists_object h
  simp only [forms, List.forall_mem_cons] at hfits
  obtain ⟨hurl, htimeout, -⟩ := hfits
  obtain ⟨url, hurl⟩ := exists_said hurl (fun _ => Document.exists_text) s.url
  obtain ⟨timeout, htimeout⟩ := exists_said htimeout (fun _ => exists_span) s.connectionTimeout
  simp only [overwrite?, bind, pure, Option.bind_eq_some_iff]
  exact ⟨_, url, hurl, timeout, htimeout, rfl⟩

theorem MemorySettings.exists_overwrite (s : MemorySettings) (h : wellTyped forms d = true) :
    ∃ s', s.overwrite? d = some s' := by
  obtain ⟨ms, rfl, hfits⟩ := exists_object h
  simp only [forms, List.forall_mem_cons] at hfits
  obtain ⟨hentries, hcleanup, hinterval, -⟩ := hfits
  obtain ⟨entries, hentries⟩ := exists_said hentries (fun _ => exists_count) s.maxEntries
  obtain ⟨cleanup, hcleanup⟩ := exists_said hcleanup (fun _ => Document.exists_truth) s.cleanup
  obtain ⟨interval, hinterval⟩ := exists_said hinterval (fun _ => exists_span) s.cleanupInterval
  simp only [overwrite?, bind, pure, Option.bind_eq_some_iff]
  exact ⟨_, entries, hentries, cleanup, hcleanup, interval, hinterval, rfl⟩

theorem RetryPolicy.exists_overwrite (p : RetryPolicy) (h : wellTyped forms d = true) :
    ∃ p', p.overwrite? d = some p' := by
  obtain ⟨ms, rfl, hfits⟩ := exists_object h
  simp only [forms, List.forall_mem_cons] at hfits
  obtain ⟨hattempts, hinitial, hgreatest, hmultiplier, hjitter, -⟩ := hfits
  obtain ⟨attempts, hattempts⟩ := exists_said hattempts (fun _ => exists_count) p.maxAttempts
  obtain ⟨initial, hinitial⟩ := exists_said hinitial (fun _ => exists_span) p.initialDelay
  obtain ⟨greatest, hgreatest⟩ := exists_said hgreatest (fun _ => exists_span) p.maxDelay
  obtain ⟨multiplier, hmultiplier⟩ :=
    exists_said hmultiplier (fun _ => Document.exists_double) p.multiplier
  obtain ⟨jitter, hjitter⟩ := exists_said hjitter (fun _ => Document.exists_truth) p.jitter
  simp only [overwrite?, bind, pure, Option.bind_eq_some_iff]
  exact ⟨_, attempts, hattempts, initial, hinitial, greatest, hgreatest, multiplier, hmultiplier,
    jitter, hjitter, rfl⟩

theorem CounterSettings.exists_overwrite (s : CounterSettings) (h : wellTyped forms d = true) :
    ∃ s', s.overwrite? d = some s' := by
  obtain ⟨ms, rfl, hfits⟩ := exists_object h
  simp only [forms, List.forall_mem_cons] at hfits
  obtain ⟨retry, hretry⟩ := exists_said hfits.1 (fun _ => s.retry.exists_overwrite) s.retry
  simp only [overwrite?, bind, pure, Option.bind_eq_some_iff]
  exact ⟨_, retry, hretry, rfl⟩

theorem CacheSettings.exists_overwrite (s : CacheSettings) (h : wellTyped forms d = true) :
    ∃ s', s.overwrite? d = some s' := by
  obtain ⟨ms, rfl, hfits⟩ := exists_object h
  simp only [forms, List.forall_mem_cons] at hfits
  obtain ⟨husePrefix, hdelimiter, hexpiration, hspans, -⟩ := hfits
  obtain ⟨usePrefix, husePrefix⟩ := exists_said husePrefix (fun _ => Document.exists_truth) s.usePrefix
  obtain ⟨delimiter, hdelimiter⟩ := exists_said hdelimiter (fun _ => Document.exists_text) s.delimiter
  obtain ⟨expiration, hexpiration⟩ :=
    exists_said hexpiration (fun _ => exists_span) s.defaultExpiration
  obtain ⟨spans, hspans⟩ := exists_said hspans (fun _ => exists_spans) s.expirations
  simp only [overwrite?, bind, pure, Option.bind_eq_some_iff]
  exact ⟨_, usePrefix, husePrefix, delimiter, hdelimiter, expiration, hexpiration, spans, hspans, rfl⟩

/-- **A well-typed object overwrites settings**, whatever they are and whatever else it holds. -/
theorem AnySettings.exists_overwrite (s : AnySettings) (h : wellTyped s.forms d = true) :
    ∃ s', s.overwrite? d = some s' := by
  cases s with
  | remote s => exact (s.exists_overwrite h).imp' remote fun s' hs => Option.map_eq_some_iff.mpr ⟨s', hs, rfl⟩
  | memory s => exact (s.exists_overwrite h).imp' memory fun s' hs => Option.map_eq_some_iff.mpr ⟨s', hs, rfl⟩
  | retry p => exact (p.exists_overwrite h).imp' retry fun p' hp => Option.map_eq_some_iff.mpr ⟨p', hp, rfl⟩
  | counter s =>
    exact (s.exists_overwrite h).imp' counter fun s' hs => Option.map_eq_some_iff.mpr ⟨s', hs, rfl⟩
  | cache s => exact (s.exists_overwrite h).imp' cache fun s' hs => Option.map_eq_some_iff.mpr ⟨s', hs, rfl⟩

end WellTyped

/-! ## Reading -/

theorem RemoteSettings.carries : Carries record.read (overwrite? {}) := by
  intro text rest d s hspells hs
  unfold overwrite? at hs
  split at hs
  · rename_i ms
    simp only [bind, pure, Option.bind_eq_some_iff, Option.some.injEq] at hs
    obtain ⟨url, hurl, timeout, htimeout, rfl⟩ := hs
    have hfields : List.Forall₂ (fun f change => f.Settles ms change) record.fields [_, _] :=
      .cons (Field.settles_of_said carries_string hurl _)
        (.cons (Field.settles_of_said carries_span htimeout _) .nil)
    exact Record.read_object (by decide) hfields hspells
  · cases hs

theorem MemorySettings.carries : Carries record.read (overwrite? {}) := by
  intro text rest d s hspells hs
  unfold overwrite? at hs
  split at hs
  · rename_i ms
    simp only [bind, pure, Option.bind_eq_some_iff, Option.some.injEq] at hs
    obtain ⟨entries, hentries, cleanup, hcleanup, interval, hinterval, rfl⟩ := hs
    have hfields : List.Forall₂ (fun f change => f.Settles ms change) record.fields [_, _, _] :=
      .cons (Field.settles_of_said carries_size hentries _)
        (.cons (Field.settles_of_said carries_boolean hcleanup _)
          (.cons (Field.settles_of_said carries_span hinterval _) .nil))
    exact Record.read_object (by decide) hfields hspells
  · cases hs

theorem RetryPolicy.carries : Carries record.read (overwrite? .standard) := by
  intro text rest d p hspells hp
  unfold overwrite? at hp
  split at hp
  · rename_i ms
    simp only [bind, pure, Option.bind_eq_some_iff, Option.some.injEq] at hp
    obtain ⟨attempts, hattempts, initial, hinitial, greatest, hgreatest, multiplier, hmultiplier,
      jitter, hjitter, rfl⟩ := hp
    have hfields : List.Forall₂ (fun f change => f.Settles ms change) record.fields [_, _, _, _, _] :=
      .cons (Field.settles_of_said carries_size hattempts _)
        (.cons (Field.settles_of_said carries_span hinitial _)
          (.cons (Field.settles_of_said carries_span hgreatest _)
            (.cons (Field.settles_of_said carries_double hmultiplier _)
              (.cons (Field.settles_of_said carries_boolean hjitter _) .nil))))
    exact Record.read_object (by decide) hfields hspells
  · cases hp

theorem CounterSettings.carries : Carries record.read (overwrite? {}) := by
  intro text rest d s hspells hs
  unfold overwrite? at hs
  split at hs
  · rename_i ms
    simp only [bind, pure, Option.bind_eq_some_iff, Option.some.injEq] at hs
    obtain ⟨retry, hretry, rfl⟩ := hs
    have hfields : List.Forall₂ (fun f change => f.Settles ms change) record.fields [_] :=
      .cons (Field.settles_of_said RetryPolicy.carries hretry _) .nil
    exact Record.read_object (by decide) hfields hspells
  · cases hs

theorem CacheSettings.carries : Carries record.read (overwrite? {}) := by
  intro text rest d s hspells hs
  unfold overwrite? at hs
  split at hs
  · rename_i ms
    simp only [bind, pure, Option.bind_eq_some_iff, Option.some.injEq] at hs
    obtain ⟨usePrefix, husePrefix, delimiter, hdelimiter, expiration, hexpiration, spans, hspans,
      rfl⟩ := hs
    have hfields : List.Forall₂ (fun f change => f.Settles ms change) record.fields [_, _, _, _] :=
      .cons (Field.settles_of_said carries_boolean husePrefix _)
        (.cons (Field.settles_of_said carries_string hdelimiter _)
          (.cons (Field.settles_of_said carries_span hexpiration _)
            (.cons (Field.settles_of_said carries_spans hspans _) .nil)))
    exact Record.read_object (by decide) hfields hspells
  · cases hs

/-- **Reading overwrites the standard settings**, and nothing but them. -/
theorem AnySettings.parse_overwrites (like : AnySettings) {text : Bytes} {d : Document}
    (h : IsText text d) {s : AnySettings} (hs : like.standard.overwrite? d = some s) :
    like.parse text = .ok s := by
  unfold parse
  cases like with
  | remote t =>
    obtain ⟨s, hread, rfl⟩ := Option.map_eq_some_iff.mp hs
    dsimp only
    rw [RemoteSettings.carries.run h hread]
    rfl
  | memory t =>
    obtain ⟨s, hread, rfl⟩ := Option.map_eq_some_iff.mp hs
    dsimp only
    rw [MemorySettings.carries.run h hread]
    rfl
  | retry t =>
    obtain ⟨p, hread, rfl⟩ := Option.map_eq_some_iff.mp hs
    dsimp only
    rw [RetryPolicy.carries.run h hread]
    rfl
  | counter t =>
    obtain ⟨s, hread, rfl⟩ := Option.map_eq_some_iff.mp hs
    dsimp only
    rw [CounterSettings.carries.run h hread]
    rfl
  | cache t =>
    obtain ⟨s, hread, rfl⟩ := Option.map_eq_some_iff.mp hs
    dsimp only
    rw [CacheSettings.carries.run h hread]
    rfl

end WatchedStore
