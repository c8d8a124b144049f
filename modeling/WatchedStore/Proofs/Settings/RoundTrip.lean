import Mathlib.Logic.Relation
import Std.Data.ExtTreeMap.Lemmas
import WatchedStore.Proofs.Json.Variation
import WatchedStore.Proofs.Settings.Defaults

/-!
# Settings that are written and read again

Settings that were read hold nothing that their document could not hold: spans of whole milliseconds, sizes
of 64 bits (`AnySettings.of_parse`). So their document, laid over the standard settings, gives them back
(`AnySettings.overwrite?_document`), and so does each document that says the same with less
(`AnySettings.stable`): without members that are standard, or in another order.

**The law** (`AnySettings.parse_exact`): what is read is the standard settings overwritten by what the text
says, and settings that were read are read again from what is written of them.
-/

namespace WatchedStore

open Json Settings

/-! ## Values that their documents hold -/

@[simp] theorem Duration.millis64_ofMillis (n : UInt64) : (Duration.ofMillis n).millis64 = n := by
  rw [millis64, wholeMillis, ofMillis, Nat.mul_div_cancel _ (by decide), UInt64.ofNat_toNat]

/-- A span that its document holds, which is one of whole milliseconds. -/
def Duration.Held (d : Duration) : Prop := (durationDocument d).span? = some d

/-- Spans by name that their document holds. -/
def SpansHeld (spans : Std.ExtTreeMap String Duration) : Prop :=
  ∀ (name : String) (d : Duration), spans[name]? = some d → d.Held

/-- A size that its document holds. -/
def SizeHeld (n : Nat) : Prop := (sizeDocument n).count? = some n

theorem Duration.held_ofMillis (n : UInt64) : (Duration.ofMillis n).Held :=
  congrArg (fun m => some (Duration.ofMillis m)) (millis64_ofMillis n)

namespace Settings

theorem yields_duration : Yields readDuration Duration.Held :=
  (yields_any _).map _ fun n _ => Duration.held_ofMillis n

theorem yields_size : Yields Reader.size SizeHeld :=
  (yields_any _).map _ fun _ _ => congrArg some (congrArg UInt64.toNat UInt64.ofNat_toNat)

end Settings

/-! ## Spans by name -/

section Spans

variable {entries : List (String × α)} {name : String} {a : α}

/-- What a map made of entries has under a name is one of them. -/
theorem mem_of_getElem?_ofList (h : (Std.ExtTreeMap.ofList entries)[name]? = some a) :
    (name, a) ∈ entries := by
  have hfold : ∀ m : Std.ExtTreeMap String α,
      (entries.foldl (fun m p => m.insert p.1 p.2) m)[name]? = some a →
        (name, a) ∈ entries ∨ m[name]? = some a := by
    clear h
    induction entries with
    | nil => exact fun m h => .inr h
    | cons p entries ih =>
      intro m h
      rcases ih _ h with hmem | hget
      · exact .inl (List.mem_cons_of_mem p hmem)
      · rw [Std.ExtTreeMap.getElem?_insert] at hget
        split at hget
        · rename_i heq
          cases hget
          obtain rfl := Std.LawfulEqCmp.compare_eq_iff_eq.mp heq
          exact .inl List.mem_cons_self
        · exact .inr hget
  rw [Std.ExtTreeMap.ofList_eq_foldl] at h
  exact (hfold ∅ h).resolve_right (by simp)

/-- Entries with different names are what their map has. -/
theorem getElem?_ofList_iff (hnames : (entries.map Prod.fst).Nodup) :
    (Std.ExtTreeMap.ofList entries)[name]? = some a ↔ (name, a) ∈ entries := by
  refine ⟨mem_of_getElem?_ofList, fun hmem => ?_⟩
  have hdistinct : entries.Pairwise fun p q => ¬ compare p.1 q.1 = .eq :=
    (List.pairwise_map.mp hnames).imp fun hne heq => hne (Std.LawfulEqCmp.compare_eq_iff_eq.mp heq)
  exact Std.ExtTreeMap.getElem?_ofList_of_mem Std.ReflCmp.compare_self hdistinct hmem

theorem ofList_perm {entries' : List (String × α)} (hperm : entries.Perm entries')
    (hnames : (entries.map Prod.fst).Nodup) :
    Std.ExtTreeMap.ofList entries = Std.ExtTreeMap.ofList entries' := by
  have hnames' : (entries'.map Prod.fst).Nodup := (hperm.map Prod.fst).nodup hnames
  ext name a
  rw [getElem?_ofList_iff hnames, getElem?_ofList_iff hnames', hperm.mem_iff]

theorem nodup_toList (m : Std.ExtTreeMap String α) : (m.toList.map Prod.fst).Nodup := by
  refine List.pairwise_map.mpr (Std.ExtTreeMap.distinct_keys_toList.imp fun h heq => h ?_)
  exact Std.LawfulEqCmp.compare_eq_iff_eq.mpr heq

theorem ofList_toList (m : Std.ExtTreeMap String α) : Std.ExtTreeMap.ofList m.toList = m := by
  ext name a
  rw [getElem?_ofList_iff (nodup_toList m), Std.ExtTreeMap.mem_toList_iff_getElem?_eq_some]

end Spans

theorem SpansHeld.spans? {spans : Std.ExtTreeMap String Duration} (h : SpansHeld spans) :
    (Document.object (spans.toList.map fun (name, d) => (name, durationDocument d))).spans? =
      some spans := by
  have hentries : ∀ {entries : List (String × Duration)}, (∀ m ∈ entries, m.2.Held) →
      (Document.object (entries.map fun (name, d) => (name, durationDocument d))).entries?
        Document.span? = some entries := by
    intro entries hall
    induction entries with
    | nil => rfl
    | cons m entries ih =>
      obtain ⟨hm, hmore⟩ := List.forall_mem_cons.mp hall
      exact Document.entries?_cons.mpr ⟨m.2, hm, entries, ih hmore, rfl⟩
  rw [Document.spans?, hentries fun m hm => h m.1 m.2 (Std.ExtTreeMap.mem_toList_iff_getElem?_eq_some.mp hm)]
  exact congrArg some (ofList_toList spans)

/-- Spans by name in another order. -/
theorem stable_spans : Stable Document.spans? (.object []) := by
  intro d d' spans hvaries hspans
  obtain ⟨entries, hentries, rfl⟩ := Option.map_eq_some_iff.mp hspans
  cases hvaries with
  | leave hmem => cases hmem
  | inside hmem => cases hmem
  | reorder hperm hnames =>
    obtain ⟨entries', hentries', hperm'⟩ := Document.entries?_perm hperm hentries
    refine Option.map_eq_some_iff.mpr ⟨entries', hentries', (ofList_perm hperm' ?_).symm⟩
    rw [Document.entries?_names hentries]
    exact hnames

/-! ## What settings hold -/

/-- Settings of a remote store that their document holds. -/
structure RemoteSettings.Held (s : RemoteSettings) : Prop where
  timeout : s.connectionTimeout.Held

/-- Settings of a store in memory that their document holds. -/
structure MemorySettings.Held (s : MemorySettings) : Prop where
  entries : SizeHeld s.maxEntries
  interval : s.cleanupInterval.Held

/-- A policy that its document holds, but for the factor. -/
structure RetryPolicy.Held (p : RetryPolicy) : Prop where
  attempts : SizeHeld p.maxAttempts
  initial : p.initialDelay.Held
  greatest : p.maxDelay.Held

/-- Settings of a cache manager that their document holds. -/
structure CacheSettings.Held (s : CacheSettings) : Prop where
  common : s.defaultExpiration.Held
  own : SpansHeld s.expirations

/-- Settings of any kind that their document holds, but for the factor of a policy. -/
def AnySettings.Held : AnySettings → Prop
  | .remote s => s.Held
  | .memory s => s.Held
  | .retry p => p.Held
  | .counter s => s.retry.Held
  | .cache s => s.Held

theorem RemoteSettings.read_held : Yields record.read Held := by
  refine Record.read_yields (List.forall_mem_cons.mpr ⟨?url, List.forall_mem_cons.mpr
    ⟨?timeout, nofun⟩⟩) ⟨rfl⟩
  case url => exact Field.keeps_of _ (yields_any _) trivial fun _ _ _ h => ⟨h.timeout⟩
  case timeout => exact Field.keeps_of _ yields_duration rfl fun _ h _ _ => ⟨h⟩

theorem MemorySettings.read_held : Yields record.read Held := by
  refine Record.read_yields (List.forall_mem_cons.mpr ⟨?entries, List.forall_mem_cons.mpr
    ⟨?cleanup, List.forall_mem_cons.mpr ⟨?interval, nofun⟩⟩⟩) ⟨rfl, rfl⟩
  case entries => exact Field.keeps_of _ yields_size rfl fun _ h _ hs => ⟨h, hs.interval⟩
  case cleanup => exact Field.keeps_of _ (yields_any _) trivial fun _ _ _ h => ⟨h.entries, h.interval⟩
  case interval => exact Field.keeps_of _ yields_duration rfl fun _ h _ hs => ⟨hs.entries, h⟩

theorem RetryPolicy.read_held : Yields record.read Held := by
  refine Record.read_yields (List.forall_mem_cons.mpr ⟨?attempts, List.forall_mem_cons.mpr
    ⟨?initial, List.forall_mem_cons.mpr ⟨?greatest, List.forall_mem_cons.mpr ⟨?multiplier,
      List.forall_mem_cons.mpr ⟨?jitter, nofun⟩⟩⟩⟩⟩) ⟨rfl, rfl, rfl⟩
  case attempts =>
    exact Field.keeps_of _ yields_size rfl fun _ h _ hp => ⟨h, hp.initial, hp.greatest⟩
  case initial =>
    exact Field.keeps_of _ yields_duration rfl fun _ h _ hp => ⟨hp.attempts, h, hp.greatest⟩
  case greatest =>
    exact Field.keeps_of _ yields_duration rfl fun _ h _ hp => ⟨hp.attempts, hp.initial, h⟩
  case multiplier =>
    exact Field.keeps_of _ (yields_any _) trivial fun _ _ _ h => ⟨h.attempts, h.initial, h.greatest⟩
  case jitter =>
    exact Field.keeps_of _ (yields_any _) trivial fun _ _ _ h => ⟨h.attempts, h.initial, h.greatest⟩

theorem CounterSettings.read_held : Yields record.read fun s => s.retry.Held := by
  refine Record.read_yields (List.forall_mem_cons.mpr ⟨?retry, nofun⟩) ⟨rfl, rfl, rfl⟩
  exact Field.keeps_of _ RetryPolicy.read_held ⟨rfl, rfl, rfl⟩ fun _ h _ _ => h

theorem CacheSettings.yields_expirations : Yields readExpirations SpansHeld := by
  refine (yields_map yields_duration).bind fun entries hall => yields_pure fun name d h => ?_
  exact hall (name, d) (mem_of_getElem?_ofList h)

theorem CacheSettings.read_held : Yields record.read Held := by
  have hnone : SpansHeld ∅ := by
    simp [SpansHeld]
  refine Record.read_yields (List.forall_mem_cons.mpr ⟨?usePrefix, List.forall_mem_cons.mpr
    ⟨?delimiter, List.forall_mem_cons.mpr ⟨?common, List.forall_mem_cons.mpr ⟨?own, nofun⟩⟩⟩⟩)
    ⟨rfl, hnone⟩
  case usePrefix => exact Field.keeps_of _ (yields_any _) trivial fun _ _ _ h => ⟨h.common, h.own⟩
  case delimiter => exact Field.keeps_of _ (yields_any _) trivial fun _ _ _ h => ⟨h.common, h.own⟩
  case common => exact Field.keeps_of _ yields_duration rfl fun _ h _ hs => ⟨h, hs.own⟩
  case own => exact Field.keeps_of _ yields_expirations hnone fun _ h _ hs => ⟨hs.common, h⟩

/-! ## What their documents say -/

section Documents

open Document

theorem RemoteSettings.Held.overwrite? {s : RemoteSettings} (h : s.Held) (base : RemoteSettings) :
    base.overwrite? s.document = some s := by
  simp only [RemoteSettings.overwrite?, document, bind, pure, Option.bind_eq_some_iff]
  exact ⟨s.url, rfl, s.connectionTimeout, h.timeout, rfl⟩

theorem MemorySettings.Held.overwrite? {s : MemorySettings} (h : s.Held) (base : MemorySettings) :
    base.overwrite? s.document = some s := by
  simp only [MemorySettings.overwrite?, document, bind, pure, Option.bind_eq_some_iff]
  exact ⟨s.maxEntries, h.entries, s.cleanup, rfl, s.cleanupInterval, h.interval, rfl⟩

theorem RetryPolicy.Held.overwrite? {p : RetryPolicy} (h : p.Held) (hfactor : RoundTrips p.multiplier)
    (base : RetryPolicy) : base.overwrite? p.document = some p := by
  have hmultiplier : (ofDouble p.multiplier).double? = some p.multiplier := by
    rw [(written_double hfactor).1]
    rfl
  simp only [RetryPolicy.overwrite?, document, bind, pure, Option.bind_eq_some_iff]
  exact ⟨p.maxAttempts, h.attempts, p.initialDelay, h.initial, p.maxDelay, h.greatest,
    p.multiplier, hmultiplier, p.jitter, rfl, rfl⟩

theorem CounterSettings.overwrite?_document {s : CounterSettings} (h : s.retry.Held)
    (hfactor : RoundTrips s.retry.multiplier) (base : CounterSettings) :
    base.overwrite? s.document = some s := by
  simp only [CounterSettings.overwrite?, document, bind, pure, Option.bind_eq_some_iff]
  exact ⟨s.retry, h.overwrite? hfactor base.retry, rfl⟩

theorem CacheSettings.Held.overwrite? {s : CacheSettings} (h : s.Held) (base : CacheSettings) :
    base.overwrite? s.document = some s := by
  simp only [CacheSettings.overwrite?, document, bind, pure, Option.bind_eq_some_iff]
  exact ⟨s.usePrefix, rfl, s.delimiter, rfl, s.defaultExpiration, h.common,
    s.expirations, h.own.spans?, rfl⟩

end Documents

theorem RemoteSettings.plain_document (s : RemoteSettings) : Plain s.document :=
  .object (List.forall_mem_cons.mpr ⟨.natural _, List.forall_mem_singleton.mpr (.string _)⟩)

theorem MemorySettings.plain_document (s : MemorySettings) : Plain s.document :=
  .object (List.forall_mem_cons.mpr ⟨.natural _, List.forall_mem_cons.mpr
    ⟨.natural _, List.forall_mem_singleton.mpr (.bool _)⟩⟩)

theorem RetryPolicy.plain_document (p : RetryPolicy) (hfactor : RoundTrips p.multiplier) :
    Plain p.document := by
  rw [document, (written_double hfactor).1]
  exact .object (List.forall_mem_cons.mpr ⟨.double hfactor, List.forall_mem_cons.mpr
    ⟨.natural _, List.forall_mem_cons.mpr ⟨.natural _, List.forall_mem_cons.mpr
      ⟨.natural _, List.forall_mem_singleton.mpr (.bool _)⟩⟩⟩⟩)

theorem CacheSettings.plain_document (s : CacheSettings) : Plain s.document := by
  have hspans : ∀ m ∈ s.expirations.toList.map fun (name, d) => (name, durationDocument d), Plain m.2 := by
    intro m hm
    obtain ⟨_, -, rfl⟩ := List.mem_map.mp hm
    exact .natural _
  exact .object (List.forall_mem_cons.mpr ⟨.natural _, List.forall_mem_cons.mpr
    ⟨.object hspans, List.forall_mem_cons.mpr ⟨.string _, List.forall_mem_singleton.mpr (.bool _)⟩⟩⟩)

/-! ## Documents that say the same -/

theorem RemoteSettings.stable : Stable (overwrite? {}) (document {}) := by
  intro d d' s hvaries hs
  obtain ⟨ms, ms', rfl, rfl⟩ := hvaries.objects
  simp only [overwrite?, bind, pure, Option.bind_eq_some_iff, Option.some.injEq] at hs ⊢
  obtain ⟨url, hurl, timeout, htimeout, rfl⟩ := hs
  exact ⟨url, said_varies_scalar rfl rfl (fun _ => rfl) hvaries hurl,
    timeout, said_varies_scalar rfl rfl (fun _ => rfl) hvaries htimeout, rfl⟩

theorem MemorySettings.stable : Stable (overwrite? {}) (document {}) := by
  intro d d' s hvaries hs
  obtain ⟨ms, ms', rfl, rfl⟩ := hvaries.objects
  simp only [overwrite?, bind, pure, Option.bind_eq_some_iff, Option.some.injEq] at hs ⊢
  obtain ⟨entries, hentries, cleanup, hcleanup, interval, hinterval, rfl⟩ := hs
  exact ⟨entries, said_varies_scalar rfl rfl (fun _ => rfl) hvaries hentries,
    cleanup, said_varies_scalar rfl rfl (fun _ => rfl) hvaries hcleanup,
    interval, said_varies_scalar rfl rfl (fun _ => rfl) hvaries hinterval, rfl⟩

theorem RetryPolicy.stable : Stable (overwrite? standard) (document standard) := by
  intro d d' p hvaries hp
  obtain ⟨ms, ms', rfl, rfl⟩ := hvaries.objects
  simp only [overwrite?, bind, pure, Option.bind_eq_some_iff, Option.some.injEq] at hp ⊢
  obtain ⟨attempts, hattempts, initial, hinitial, greatest, hgreatest, multiplier, hmultiplier,
    jitter, hjitter, rfl⟩ := hp
  exact ⟨attempts, said_varies_scalar rfl rfl (fun _ => rfl) hvaries hattempts,
    initial, said_varies_scalar rfl rfl (fun _ => rfl) hvaries hinitial,
    greatest, said_varies_scalar rfl rfl (fun _ => rfl) hvaries hgreatest,
    multiplier, said_varies_scalar rfl rfl (fun _ => rfl) hvaries hmultiplier,
    jitter, said_varies_scalar rfl rfl (fun _ => rfl) hvaries hjitter, rfl⟩

theorem CounterSettings.stable : Stable (overwrite? {}) (document {}) := by
  intro d d' s hvaries hs
  obtain ⟨ms, ms', rfl, rfl⟩ := hvaries.objects
  simp only [overwrite?, bind, pure, Option.bind_eq_some_iff, Option.some.injEq] at hs ⊢
  obtain ⟨retry, hretry, rfl⟩ := hs
  exact ⟨retry, said_varies rfl rfl RetryPolicy.stable hvaries hretry, rfl⟩

theorem CacheSettings.stable : Stable (overwrite? {}) (document {}) := by
  intro d d' s hvaries hs
  obtain ⟨ms, ms', rfl, rfl⟩ := hvaries.objects
  simp only [overwrite?, bind, pure, Option.bind_eq_some_iff, Option.some.injEq] at hs ⊢
  obtain ⟨usePrefix, husePrefix, delimiter, hdelimiter, expiration, hexpiration, spans, hspans,
    rfl⟩ := hs
  exact ⟨usePrefix, said_varies_scalar rfl rfl (fun _ => rfl) hvaries husePrefix,
    delimiter, said_varies_scalar rfl rfl (fun _ => rfl) hvaries hdelimiter,
    expiration, said_varies_scalar rfl rfl (fun _ => rfl) hvaries hexpiration,
    spans, said_varies rfl rfl stable_spans hvaries hspans, rfl⟩

/-! ## All kinds -/

namespace AnySettings

/-- The factor of settings that have one. -/
def multiplier? : AnySettings → Option Float
  | .retry p => some p.multiplier
  | .counter s => some s.retry.multiplier
  | _ => none

variable {like s : AnySettings} {text : Bytes} {d : Document}

theorem mapError_map_eq_ok {r : Except Problem α} {kind : α → AnySettings} {report : Problem → Error}
    (h : (kind <$> r).mapError report = .ok s) : ∃ a, r = .ok a ∧ kind a = s := by
  cases r with
  | error e => cases h
  | ok a => exact ⟨a, rfl, Except.ok.inj h⟩

/-- **What is read is held by its document**, and is of the wanted kind. -/
theorem of_parse (h : like.parse text = .ok s) : s.Held ∧ s.standard = like.standard := by
  cases like with
  | remote t =>
    obtain ⟨s, hread, rfl⟩ := mapError_map_eq_ok h
    exact ⟨RemoteSettings.read_held.run hread, rfl⟩
  | memory t =>
    obtain ⟨s, hread, rfl⟩ := mapError_map_eq_ok h
    exact ⟨MemorySettings.read_held.run hread, rfl⟩
  | retry t =>
    obtain ⟨p, hread, rfl⟩ := mapError_map_eq_ok h
    exact ⟨RetryPolicy.read_held.run hread, rfl⟩
  | counter t =>
    obtain ⟨s, hread, rfl⟩ := mapError_map_eq_ok h
    exact ⟨CounterSettings.read_held.run hread, rfl⟩
  | cache t =>
    obtain ⟨s, hread, rfl⟩ := mapError_map_eq_ok h
    exact ⟨CacheSettings.read_held.run hread, rfl⟩

/-- **The document of settings, laid over the standard ones, gives them back.** -/
theorem overwrite?_document (h : s.Held) (hfactor : ∀ x ∈ s.multiplier?, RoundTrips x) :
    s.standard.overwrite? s.document = some s := by
  cases s with
  | remote s => exact congrArg (Option.map remote) (RemoteSettings.Held.overwrite? h {})
  | memory s => exact congrArg (Option.map memory) (MemorySettings.Held.overwrite? h {})
  | retry p => exact congrArg (Option.map retry) (RetryPolicy.Held.overwrite? h (hfactor _ rfl) .standard)
  | counter s =>
    exact congrArg (Option.map counter) (CounterSettings.overwrite?_document h (hfactor _ rfl) {})
  | cache s => exact congrArg (Option.map cache) (CacheSettings.Held.overwrite? h {})

theorem stable (s : AnySettings) : Stable s.standard.overwrite? s.standard.document := by
  cases s with
  | remote s => exact RemoteSettings.stable.map remote
  | memory s => exact MemorySettings.stable.map memory
  | retry p => exact RetryPolicy.stable.map retry
  | counter s => exact CounterSettings.stable.map counter
  | cache s => exact CacheSettings.stable.map cache

theorem plain_document (hfactor : ∀ x ∈ s.multiplier?, RoundTrips x) : Plain s.document := by
  cases s with
  | remote s => exact s.plain_document
  | memory s => exact s.plain_document
  | retry p => exact p.plain_document (hfactor _ rfl)
  | counter s => exact .object (List.forall_mem_singleton.mpr (s.retry.plain_document (hfactor _ rfl)))
  | cache s => exact s.plain_document

/-- **Each document that says the same** as that of the settings gives them back too. -/
theorem overwrite?_of_varies (hheld : s.Held) (hfactor : ∀ x ∈ s.multiplier?, RoundTrips x)
    (h : Relation.ReflTransGen (Varies s.standard.document) s.document d) :
    s.standard.overwrite? d = some s ∧ Plain d := by
  induction h with
  | refl => exact ⟨overwrite?_document hheld hfactor, plain_document hfactor⟩
  | tail _ hstep ih => exact ⟨s.stable hstep ih.1, hstep.plain ih.2⟩

/-- **Settings are read exactly.**

A well-typed object overwrites the standard settings where it has a member of a field's name, and nowhere
else, whatever else it holds. Settings that were read are read again from their document, and from each that says
the same with less or in another order, as it is written and in any other text of it; only of the factor of a
policy it is assumed that its text is read back as it. Spans are numbers of milliseconds of 64 bits, by
themselves and by name. -/
theorem parse_exact :
    (∀ (like : AnySettings) (text : Bytes) (d : Document), IsText text d →
      wellTyped like.forms d = true →
        ∃ s, like.standard.overwrite? d = some s ∧ like.parse text = .ok s) ∧
    (∀ (like s : AnySettings) (text : Bytes), like.parse text = .ok s →
      (∀ x ∈ s.multiplier?, RoundTrips x) →
      ∀ d, Relation.ReflTransGen (Varies s.standard.document) s.document d →
        like.parse d.encode = .ok s ∧ ∀ other, IsText other d → like.parse other = .ok s) ∧
    (∀ n : UInt64, durationDocument (.ofMillis n) = .number (.natural n) ∧
      ∀ text, IsText text (.number (.natural n)) → readDuration.run text = .ok (.ofMillis n)) ∧
    ∀ (entries : List (String × UInt64)) (text : Bytes),
      IsText text (.object (entries.map fun (name, n) => (name, .number (.natural n)))) →
        CacheSettings.readExpirations.run text =
          .ok (.ofList (entries.map fun (name, n) => (name, Duration.ofMillis n))) := by
  refine ⟨?read, ?again, ?span, ?spans⟩
  case read =>
    intro like text d htext hd
    obtain ⟨s, hs⟩ := like.standard.exists_overwrite (like.forms_standard ▸ hd)
    exact ⟨s, hs, parse_overwrites like htext hs⟩
  case again =>
    intro like s text hparse hfactor d hvaries
    obtain ⟨hheld, hkind⟩ := of_parse hparse
    obtain ⟨htold, hplain⟩ := overwrite?_of_varies hheld hfactor hvaries
    rw [hkind] at htold
    exact ⟨parse_overwrites like hplain.written.isText htold,
      fun other hother => parse_overwrites like hother htold⟩
  case span =>
    intro n
    refine ⟨?_, fun text htext => carries_span.run htext rfl⟩
    rw [durationDocument, Duration.millis64_ofMillis]
  case spans =>
    intro entries text htext
    have hentries : (Document.object (entries.map fun (name, n) => (name, .number (.natural n)))).entries?
        Document.span? = some (entries.map fun (name, n) => (name, Duration.ofMillis n)) := by
      clear htext
      induction entries with
      | nil => rfl
      | cons m entries ih => exact Document.entries?_cons.mpr ⟨.ofMillis m.2, rfl, _, ih, rfl⟩
    refine carries_spans.run htext ?_
    rw [Document.spans?, hentries]
    rfl

/-- A counter's settings with one field of their policy and a member of no field, read, written without a
standard field, and read again. -/
theorem parse_exact_counter :
    let policy : RetryPolicy := { RetryPolicy.standard with multiplier := 2.5 }
    let given : Document := .object [
      ("retry", .object [("backoff_multiplier", .number (.double 2.5))]), ("unknown", .bool true)]
    let less : Document := .object [("retry", .object [
      ("backoff_multiplier", .number (.double 2.5)), ("initial_backoff", .number (.natural 1)),
      ("max_attempts", .number (.natural 32)), ("max_backoff", .number (.natural 200))])]
    IsText given.encode given ∧ RoundTrips policy.multiplier ∧
      Relation.ReflTransGen (Varies (CounterSettings.document {})) (CounterSettings.document ⟨policy⟩) less ∧
      (counter {}).parse given.encode = .ok (counter ⟨policy⟩) ∧
      (counter {}).parse less.encode = .ok (counter ⟨policy⟩) := by
  have hpolicy : ({ RetryPolicy.standard with multiplier := 2.5 } : RetryPolicy).document = .object (
      [("backoff_multiplier", .number (.double 2.5)), ("initial_backoff", .number (.natural 1)),
        ("max_attempts", .number (.natural 32)), ("max_backoff", .number (.natural 200))] ++
      [("use_jitter", .bool true)]) := rfl
  intro policy given less
  have htext : IsText given.encode given := by
    refine (Plain.object (List.forall_mem_cons.mpr ⟨?_, ?_⟩)).written.isText
    · exact .object (List.forall_mem_singleton.mpr (.double roundTrips_half))
    · exact List.forall_mem_singleton.mpr (.bool true)
  have hjitter : Varies RetryPolicy.standard.document policy.document (.object [
      ("backoff_multiplier", .number (.double 2.5)), ("initial_backoff", .number (.natural 1)),
      ("max_attempts", .number (.natural 32)), ("max_backoff", .number (.natural 200))]) := by
    rw [show policy.document = _ from hpolicy]
    exact .leave (.tail _ (.tail _ (.tail _ (.tail _ (.head _)))))
  have hless : Relation.ReflTransGen (Varies (CounterSettings.document {}))
      (CounterSettings.document ⟨policy⟩) less :=
    .single (@Varies.inside _ [] [] "retry" _ _ _ (.head _) hjitter)
  obtain ⟨s, hs, hread⟩ := parse_exact.1 (counter {}) given.encode given htext rfl
  obtain rfl : counter ⟨policy⟩ = s := Option.some.inj hs
  have hfactor : ∀ x ∈ (counter ⟨policy⟩).multiplier?, RoundTrips x := by
    rintro x ⟨⟩
    exact roundTrips_half
  exact ⟨htext, roundTrips_half, hless, hread, (parse_exact.2.1 _ _ _ hread hfactor less hless).1⟩

end AnySettings

end WatchedStore
