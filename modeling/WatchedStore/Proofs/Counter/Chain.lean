import WatchedStore.Proofs.Clients.Schedule
import WatchedStore.Proofs.Counter.Swap
import WatchedStore.Proofs.Text.Numeral

/-!
# Swaps form a chain

On a key that holds an integer for good, and that only swaps modify, the swaps that succeed form a chain:
each one expects what the one before it has left (`Swappers.chain`). Any number of clients swap, and
others may do anything that leaves the key alone. A client here stands for one call; whoever swaps again
and again is as many clients, whose turns come one behind the other.

The invariant is about the calls so far: the commits among them form a chain that ends at what the key
holds now. A call either is quiet and no commit, or is the one commit of its client, and then the client's
earlier calls are quiet; this is how single swaps are atomic (`compareAndSet_lands`).
-/

namespace WatchedStore.Memory

open WatchedStore.Counter

variable {ι α : Type}

/-- **A chain of swaps** from one integer to another: each expects what the one before it has left. -/
def Chain (expect update : ι → Int64) : Int64 → List ι → Int64 → Prop
  | v, [], w => w = v
  | v, i :: rest, w => expect i = v ∧ Chain expect update (update i) rest w

/-- **The clients whose commits were carried out**, in the order of the commits. -/
def committed (log : List (ι × Visit)) : List ι :=
  (log.filter fun entry => entry.2.commits).map Prod.fst

theorem Chain.snoc {expect update : ι → Int64} {v w : Int64} {calls : List ι} {i : ι}
    (h : Chain expect update v calls w) (hi : expect i = w) :
    Chain expect update v (calls ++ [i]) (update i) := by
  induction calls generalizing v with
  | nil => exact ⟨hi.trans h, rfl⟩
  | cons j rest ih => exact ⟨h.1, ih h.2⟩

/-- The invariant: the commits so far form a chain that ends at what the key holds for good. -/
def Chained (expect update : ι → Int64) (key : String) (start : Int64) (calls : List ι) (s : State) :
    Prop :=
  ∃ v b, Chain expect update start calls v ∧ s.entries[key]? = some ⟨.bytes b, none⟩ ∧
    decode key b = .ok v

section Chained

variable {expect update : ι → Int64} {key : String} {start : Int64} {calls : List ι} {s s' : State}
  {now : Instant}

/-- What leaves alone what the key holds keeps the invariant. -/
theorem Chained.of_live (h : Chained expect update key start calls s)
    (hsame : s'.live now key = s.live now key) : Chained expect update key start calls s' := by
  obtain ⟨v, b, hchain, hentry, hb⟩ := h
  rw [State.live_of_forever hentry] at hsame
  exact ⟨v, b, hchain, State.entries_of_live hsame, hb⟩

/-- A commit that swapped prolongs the chain. -/
theorem Chained.of_swaps {v : Visit} {i : ι} (h : Chained expect update key start calls v.store.state)
    (hswaps : v.Swaps key (expect i) (update i)) :
    Chained expect update key start (calls ++ [i]) v.left.state := by
  obtain ⟨w, b, hchain, hentry, hb⟩ := h
  obtain ⟨b', until_, hbefore, hb', hwrites⟩ := hswaps
  have hlive : v.before key = some ⟨.bytes b, none⟩ := State.live_of_forever hentry v.now
  rw [hlive] at hbefore
  cases hbefore
  rw [hb] at hb'
  cases hb'
  exact ⟨update i, _, hchain.snoc rfl, State.entries_of_live hwrites.held, decode_encode key (update i)⟩

end Chained

theorem committed_snoc (log : List (ι × Visit)) (i : ι) (v : Visit) :
    committed (log ++ [(i, v)]) = committed log ++ if v.commits = true then [i] else [] := by
  cases hv : v.commits <;> simp [committed, hv]

variable [DecidableEq ι]

theorem mem_committed {log : List (ι × Visit)} {i : ι} :
    i ∈ committed log ↔ ∃ v ∈ System.ofClient i log, v.commits = true := mem_map_filter

/-- A call keeps the invariant: it is idle, or it is the first commit of its client and prolongs the
chain. -/
theorem Chained.call {expect update : ι → Int64} {key : String} {start : Int64} {log : List (ι × Visit)}
    {i : ι} {v : Visit} {left : Program Transaction (Except Error Bool)}
    (h : Chained expect update key start (committed log) v.store.state)
    (hnodup : (committed log).Nodup)
    (hlands : Lands (swapEffect key (expect i) (update i)) left (System.ofClient i (log ++ [(i, v)]))) :
    Chained expect update key start (committed (log ++ [(i, v)])) v.left.state ∧
      (committed (log ++ [(i, v)])).Nodup := by
  rw [ofClient_snoc] at hlands
  rw [committed_snoc]
  generalize hvisits : System.ofClient i log ++ [v] = visits at hlands
  cases hlands with
  | idle hidle _ =>
    have hv : v.Idle := hidle v (hvisits ▸ List.mem_append_right _ List.mem_cons_self)
    rw [hv.not_commits, if_neg Bool.false_ne_true, List.append_nil]
    exact ⟨h.of_live (congrFun hv.quiet key), hnodup⟩
  | @commit first last r did hidle hr hcommits hdid _ =>
    obtain ⟨hfirst, hlast⟩ := List.append_inj' hvisits rfl
    cases hlast
    match r, hr with
    | .ok true, hr =>
      cases hr
      rw [if_pos hcommits]
      refine ⟨h.of_swaps hdid, List.nodup_append.mpr ⟨hnodup, by simp, ?_⟩⟩
      -- a commit of the same client before would be among the idle calls in front of this one
      rintro j hj k hk rfl
      obtain rfl := List.mem_singleton.mp hk
      obtain ⟨v', hmem, hv'⟩ := mem_committed.mp hj
      rw [(hidle v' (hfirst ▸ hmem)).not_commits] at hv'
      cases hv'

/-- The clients of a system that all swap under one key. -/
structure Swappers (key : String) (expect update : ι → Int64) (sys : System ι (Except Error Bool)) :
    Prop where
  wellFormed : sys.store.WellFormed
  programs : ∀ i, ∃ c : Counter, c.key = key ∧
    sys.program i = ExceptT.run (c.compareAndSet (expect i) (update i))

variable {expect update : ι → Int64} {key : String} {start : Int64} {t t' : Instant}
  {sys : System ι (Except Error Bool)} {schedule : List (Instant × Turn ι)}

/-- What each of these clients has done so far. -/
theorem Swappers.lands (h : Swappers key expect update sys) (hrun : Ordered t schedule t') (i : ι) :
    Lands (swapEffect key (expect i) (update i)) ((sys.after schedule).program i)
      (sys.visits i schedule) := by
  obtain ⟨c, rfl, hi⟩ := h.programs i
  have hcourse := sys.course i hrun
  rw [hi] at hcourse
  exact compareAndSet_lands h.wellFormed hcourse

/-- **The invariant holds all along**, and no client commits twice. -/
theorem Swappers.chained (h : Swappers key expect update sys) (hrun : Ordered t schedule t')
    (hothers : sys.OthersSpare key schedule)
    (hstart : Chained expect update key start [] sys.store.state) :
    Chained expect update key start (committed (sys.log schedule)) (sys.after schedule).store.state ∧
      (committed (sys.log schedule)).Nodup := by
  refine System.log_invariant
    (P := fun log s => Chained expect update key start (committed log) s ∧ (committed log).Nodup)
    hrun hothers ⟨hstart, List.nodup_nil⟩ (fun h hsame => ⟨h.1.of_live hsame, h.2⟩) ?_
  intro pre now t₁ i v hrun hlog ⟨hchained, hnodup⟩
  have hlands := h.lands hrun i
  rw [System.visits, hlog] at hlands
  exact Chained.call hchained hnodup hlands

/-- A client that is done has committed exactly if its answer is yes. -/
theorem Swappers.committed_iff (h : Swappers key expect update sys) (hrun : Ordered t schedule t')
    {i : ι} {result : Except Error Bool} (hdone : (sys.after schedule).program i = .done result) :
    result = .ok true ↔ i ∈ committed (sys.log schedule) := by
  have hlands := h.lands hrun i
  rw [hdone] at hlands
  rw [mem_committed]
  change Lands _ _ (System.ofClient i (sys.log schedule)) at hlands
  generalize System.ofClient i (sys.log schedule) = visits at hlands
  cases hlands with
  | idle hidle hleft =>
    constructor
    · rintro rfl
      cases hleft _ rfl
    · rintro ⟨v, hmem, hv⟩
      rw [(hidle v hmem).not_commits] at hv
      cases hv
  | @commit first last r did _ hr hcommits _ hleft =>
    obtain rfl := hleft result rfl
    match result, hr with
    | .ok true, _ =>
      exact ⟨fun _ => ⟨last, List.mem_append_right _ List.mem_cons_self, hcommits⟩, fun _ => rfl⟩

/-- **What swaps under one key amount to**: the commits form a chain from one integer to the one that the
key holds in the end, for good; no client commits twice; and of the clients that are done, exactly those
have committed that answer yes. -/
structure SwapsInChain (key : String) (expect update : ι → Int64) (start : Int64)
    (sys : System ι (Except Error Bool)) (schedule : List (Instant × Turn ι)) (t' : Instant) : Prop where
  chain : ∃ last left, Chain expect update start (committed (sys.log schedule)) last ∧
    (sys.after schedule).store.state.live t' key = some ⟨.bytes left, none⟩ ∧
    decode key left = .ok last
  once : (committed (sys.log schedule)).Nodup
  answers : ∀ i result, (sys.after schedule).program i = .done result →
    (result = .ok true ↔ i ∈ committed (sys.log schedule))

/-- **Swaps under one key form a chain**, if whatever others do leaves the key alone. -/
theorem Swappers.chain {bytes : Bytes} (h : Swappers key expect update sys)
    (hrun : Ordered t schedule t') (hstart : sys.store.state.live t key = some ⟨.bytes bytes, none⟩)
    (hinteger : decode key bytes = .ok start) (hothers : sys.OthersSpare key schedule) :
    SwapsInChain key expect update start sys schedule t' := by
  obtain ⟨⟨last, left, hchain, hentry, hleft⟩, hnodup⟩ := h.chained hrun hothers
    ⟨start, bytes, rfl, State.entries_of_live hstart, hinteger⟩
  exact ⟨⟨last, left, hchain, State.live_of_forever hentry t', hleft⟩, hnodup,
    fun i result hdone => h.committed_iff hrun hdone⟩

/-- **Swaps on condition are atomic, and form a chain.** Any number of clients share a store, among deeds
of others. First, for each client that swaps: once it is done, its calls amount to what its answer says.
Second, for a key that holds an integer for good, when all clients swap under it and whatever others do
leaves it alone: the commits form a chain from this integer on. -/
theorem compareAndSet_atomic_chained (hs : Reachable t sys.store) (hrun : Ordered t schedule t') :
    (∀ (i : ι) (c : Counter) (expect update : Int64) (result : Except Error Bool),
      sys.program i = ExceptT.run (c.compareAndSet expect update) →
      (sys.after schedule).program i = .done result →
      Swapped c.key expect update (sys.visits i schedule) result) ∧
    (∀ (key : String) (counters : ι → Counter) (expect update : ι → Int64) (start : Int64)
        (bytes : Bytes),
      (∀ i, (counters i).key = key) →
      (∀ i, sys.program i = ExceptT.run ((counters i).compareAndSet (expect i) (update i))) →
      sys.store.state.live t key = some ⟨.bytes bytes, none⟩ → decode key bytes = .ok start →
      sys.OthersSpare key schedule →
      SwapsInChain key expect update start sys schedule t') := by
  refine ⟨fun i c expect update result hi hdone => swapped_of_done hs hrun hi hdone, ?_⟩
  intro key counters expect update start bytes hkey hprogram hstart hinteger hothers
  have hswappers : Swappers key expect update sys :=
    ⟨hs.wellFormed, fun i => ⟨counters i, hkey i, hprogram i⟩⟩
  exact hswappers.chain hrun hstart hinteger hothers

/-- A client swaps one for two, with a read and a write to another key in between. -/
theorem compareAndSet_atomic_chained_once :
    let counter : Counter := { key := "n", retry := .standard, draw := fun _ => 1.0 }
    let sys : System Unit (Except Error Bool) :=
      { store := ({ maxEntries := 2 } : Store).perform 0 (.call (.request (.set "n" [0x31] none)))
        program := fun _ => ExceptT.run (counter.compareAndSet 1 2) }
    let schedule : List (Instant × Turn Unit) :=
      [(1, .client ()), (1, .client ()), (2, .other (.call (.request (.get "n")))),
        (2, .other (.call (.request (.set "m" [] none)))), (3, .client ()), (4, .client ())]
    Swapped "n" 1 2 (sys.visits () schedule) (.ok true) ∧
      SwapsInChain "n" (fun _ => 1) (fun _ => 2) 1 sys schedule 4 := by
  intro counter sys schedule
  have hs : Reachable 0 sys.store := ⟨2, .deed .refl (.call (.request (.set "n" [0x31] none)))⟩
  have hrun : Ordered 0 schedule 4 := by simp [schedule, Ordered]
  have hdone : (sys.after schedule).program () = .done (.ok true) := by
    simp only [sys, schedule, counter]
    rfl
  obtain ⟨hatomic, hchain⟩ := compareAndSet_atomic_chained hs hrun
  refine ⟨hatomic () counter 1 2 (.ok true) rfl hdone,
    hchain "n" (fun _ => counter) _ _ 1 [0x31] (fun _ => rfl) (fun _ => rfl) rfl rfl ?_⟩
  simp only [sys, schedule, counter]
  exact ⟨rfl, rfl, trivial⟩

end WatchedStore.Memory
