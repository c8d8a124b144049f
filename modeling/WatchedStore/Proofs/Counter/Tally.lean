import WatchedStore.Proofs.Clients.Schedule
import WatchedStore.Proofs.Counter.Errand

/-!
# No update is lost, and no ticket comes twice

Any number of clients add to one key, some by one request and some in rounds, and construct further
counters on it; others may do anything that leaves the key alone. A client here stands for one operation;
whoever has several is as many clients, whose turns come one behind the other.

The calls by which clients add make up a ledger: each of them met the integer that the one before it had
left. So the key holds the start and all amounts added so far (`Ledger.total`), and each addition met the
start and the amounts before its own (`Ledger.get`). What clients answer is settled by the call they added
by, so these integers are what they answer (`Errand.settles`).

**The law** (`errands_tallied`) is about any schedule, hence about every moment of one.
-/

namespace WatchedStore.Memory

open WatchedStore.Counter

variable {ι : Type}

/-- **A ledger of additions** from one integer to another: under each call the key held the start and the
amounts entered before. -/
def Ledger (errand : ι → Errand) (key : String) : Int → List (ι × Visit) → Int → Prop
  | v, [], w => w = v
  | v, (i, visit) :: rest, w =>
    (∃ n, visit.store.state.HoldsInteger key n ∧ n.toInt = v) ∧
      Ledger errand key (v + (errand i).delta.toInt) rest w

/-- The calls by which clients add, in their order. -/
def booked (errand : ι → Errand) (log : List (ι × Visit)) : List (ι × Visit) :=
  log.filter fun entry => (errand entry.1).commits entry.2

/-- **The clients whose call to add has happened**, in the order of these calls. -/
def contributors (errand : ι → Errand) (log : List (ι × Visit)) : List ι :=
  (booked errand log).map Prod.fst

/-- The sum of the amounts that clients add. -/
def sumOfDeltas (errand : ι → Errand) : List ι → Int
  | [] => 0
  | i :: rest => (errand i).delta.toInt + sumOfDeltas errand rest

/-- The integer before its addition, by what a client has answered. -/
def System.previous? (errand : ι → Errand) (sys : System ι (Except Error (Option Int64))) (i : ι) :
    Option Int :=
  match sys.program i with
  | .done (.ok (some answer)) => some ((errand i).previous answer)
  | _ => none

/-! ## Ledgers -/

section Ledger

variable {errand : ι → Errand} {key : String} {v w : Int} {log : List (ι × Visit)} {i : ι}
  {visit : Visit} {n : Int64}

theorem Ledger.snoc (h : Ledger errand key v log n.toInt) (hn : visit.store.state.HoldsInteger key n) :
    Ledger errand key v (log ++ [(i, visit)]) (n.toInt + (errand i).delta.toInt) := by
  induction log generalizing v with
  | nil => exact ⟨⟨n, hn, h⟩, congrArg (· + _) h⟩
  | cons entry rest ih => exact ⟨h.1, ih h.2⟩

/-- A ledger ends at its start and all its amounts. -/
theorem Ledger.total (h : Ledger errand key v log w) :
    w = v + sumOfDeltas errand (log.map Prod.fst) := by
  induction log generalizing v with
  | nil => exact h.trans (Int.add_zero v).symm
  | cons entry rest ih =>
    rw [ih h.2, List.map_cons, sumOfDeltas, Int.add_assoc]

/-- **Each call of a ledger met its start and the amounts before.** -/
theorem Ledger.get {k : Nat} (h : Ledger errand key v log w) (hk : log[k]? = some (i, visit)) :
    ∃ n, visit.store.state.HoldsInteger key n ∧
      n.toInt = v + sumOfDeltas errand ((log.map Prod.fst).take k) := by
  induction log generalizing v k with
  | nil => cases hk
  | cons entry rest ih =>
    cases k with
    | zero =>
      cases hk
      obtain ⟨⟨n, hn, hv⟩, -⟩ := h
      exact ⟨n, hn, hv.trans (Int.add_zero v).symm⟩
    | succ k =>
      obtain ⟨n, hn, hv⟩ := ih h.2 hk
      refine ⟨n, hn, ?_⟩
      rw [hv, List.map_cons, List.take_succ_cons, sumOfDeltas, Int.add_assoc]

theorem booked_snoc (log : List (ι × Visit)) (i : ι) (visit : Visit) :
    booked errand (log ++ [(i, visit)]) =
      booked errand log ++ if (errand i).commits visit = true then [(i, visit)] else [] := by
  cases hv : (errand i).commits visit <;> simp [booked, hv]

theorem sumOfDeltas_of_ones {clients : List ι} (h : ∀ i ∈ clients, (errand i).delta = 1) :
    sumOfDeltas errand clients = clients.length := by
  induction clients with
  | nil => rfl
  | cons i rest ih =>
    obtain ⟨hi, hrest⟩ := List.forall_mem_cons.mp h
    have hone : (1 : Int64).toInt = 1 := rfl
    rw [sumOfDeltas, ih hrest, hi, hone, List.length_cons]
    omega

end Ledger

variable [DecidableEq ι] {errand : ι → Errand} {key : String} {start : Int64} {t t' : Instant}
  {sys : System ι (Except Error (Option Int64))} {schedule : List (Instant × Turn ι)}

/-! ## The invariant -/

/-- **What holds of all calls so far and of the store**: the additions make up a ledger that ends at what the
key holds for good, every call met an integer, and no client has added twice. -/
structure Balanced (errand : ι → Errand) (key : String) (start : Int64) (log : List (ι × Visit))
    (s : State) : Prop where
  ledger : ∃ n, Ledger errand key start.toInt (booked errand log) n.toInt ∧ s.HoldsInteger key n
  met : ∀ entry ∈ log, ∃ n, entry.2.store.state.HoldsInteger key n
  once : (contributors errand log).Nodup

omit [DecidableEq ι] in
theorem Balanced.of_live {log : List (ι × Visit)} {s s' : State} {now : Instant}
    (h : Balanced errand key start log s) (hsame : s'.live now key = s.live now key) :
    Balanced errand key start log s' := by
  obtain ⟨n, hledger, hn⟩ := h.ledger
  exact ⟨⟨n, hledger, hn.of_live hsame⟩, h.met, h.once⟩

theorem mem_contributors {log : List (ι × Visit)} {i : ι} :
    i ∈ contributors errand log ↔ ∃ v ∈ System.ofClient i log, (errand i).commits v = true :=
  mem_map_filter

/-- A call keeps the balance: it leaves the key alone, or it is the first addition of its client. -/
theorem Balanced.call {log : List (ι × Visit)} {i : ι} {v : Visit}
    {left : Program Transaction (Except Error (Option Int64))}
    (h : Balanced errand key start log v.store.state)
    (hsettles : (errand i).Settles key left (System.ofClient i (log ++ [(i, v)]))) :
    Balanced errand key start (log ++ [(i, v)]) v.left.state := by
  obtain ⟨n, hledger, hn⟩ := h.ledger
  have hmet : ∀ entry ∈ log ++ [(i, v)], ∃ n, entry.2.store.state.HoldsInteger key n :=
    List.forall_mem_append.mpr ⟨h.met, List.forall_mem_singleton.mpr ⟨n, hn⟩⟩
  rw [ofClient_snoc] at hsettles
  generalize hvisits : System.ofClient i log ++ [v] = visits at hsettles
  cases hsettles with
  | idle hidle _ =>
    have hv := hidle v (hvisits ▸ List.mem_append_right _ List.mem_cons_self)
    have hsame : booked errand (log ++ [(i, v)]) = booked errand log := by
      rw [booked_snoc, hv.not_commits, if_neg Bool.false_ne_true, List.append_nil]
    refine ⟨⟨n, hsame ▸ hledger, hn.of_live hv.spares⟩, hmet, ?_⟩
    rw [contributors, hsame]
    exact h.once
  | @books first last answer hidle hbooks _ =>
    obtain ⟨hfirst, hlast⟩ := List.append_inj' hvisits rfl
    cases hlast
    obtain ⟨n', sum, hn', hsum, hshift, -⟩ := hbooks.shifts
    obtain rfl := hn.unique hn'
    have hsnoc : booked errand (log ++ [(i, v)]) = booked errand log ++ [(i, v)] := by
      rw [booked_snoc, if_pos hbooks.commits]
    refine ⟨⟨sum, ?_, hsum⟩, hmet, ?_⟩
    · rw [hsnoc, hshift]
      exact hledger.snoc hn
    · rw [contributors, hsnoc, List.map_append]
      refine List.nodup_append.mpr ⟨h.once, by simp, ?_⟩
      -- an addition of the same client before would be among the idle calls in front of this one
      rintro j hj k hk rfl
      obtain rfl := List.mem_singleton.mp hk
      obtain ⟨v', hmem, hv'⟩ := mem_contributors.mp hj
      rw [(hidle v' (hfirst ▸ hmem)).not_commits] at hv'
      cases hv'

/-- The clients of a system whose operations are all under one key. -/
structure Errands (key : String) (errand : ι → Errand)
    (sys : System ι (Except Error (Option Int64))) : Prop where
  wellFormed : sys.store.WellFormed
  programs : ∀ i, ∃ c : Counter, c.key = key ∧ sys.program i = ExceptT.run ((errand i).action c)

/-- What each of these clients has done so far, if its calls met integers. -/
theorem Errands.settles (h : Errands key errand sys) (hrun : Ordered t schedule t')
    (hmet : ∀ entry ∈ sys.log schedule, ∃ n, entry.2.store.state.HoldsInteger key n) (i : ι) :
    (errand i).Settles key ((sys.after schedule).program i) (sys.visits i schedule) := by
  obtain ⟨c, rfl, hi⟩ := h.programs i
  have hcourse := sys.course i hrun
  rw [hi] at hcourse
  exact Errand.settles h.wellFormed (fun v hv => hmet (i, v) (mem_ofClient.mp hv)) hcourse

/-- **The balance holds all along.** -/
theorem Errands.balanced (h : Errands key errand sys) (hrun : Ordered t schedule t')
    (hothers : sys.OthersSpare key schedule) (hstart : sys.store.state.HoldsInteger key start) :
    Balanced errand key start (sys.log schedule) (sys.after schedule).store.state := by
  refine System.log_invariant hrun hothers ⟨⟨start, rfl, hstart⟩, ?_, List.nodup_nil⟩
    Balanced.of_live ?_
  · exact fun _ hmem => absurd hmem List.not_mem_nil
  · intro pre now t₁ i v hrun hlog hbalanced
    obtain ⟨n, -, hn⟩ := hbalanced.ledger
    have hmet : ∀ entry ∈ sys.log (pre ++ [(now, .client i)]),
        ∃ n, entry.2.store.state.HoldsInteger key n := by
      rw [hlog]
      exact List.forall_mem_append.mpr ⟨hbalanced.met, List.forall_mem_singleton.mpr ⟨n, hn⟩⟩
    have hsettles := h.settles hrun hmet i
    rw [System.visits, hlog] at hsettles
    exact hbalanced.call hsettles

/-! ## What clients answer -/

/-- A client that has added answers, once it is done, by the integer that its addition met. -/
theorem Errand.Settles.of_mem {e : Errand} {left : Program Transaction (Except Error (Option Int64))}
    {visits : List Visit} {v : Visit} (h : e.Settles key left visits) (hmem : v ∈ visits)
    (hcommits : e.commits v = true) :
    ∃ answer, e.Books key answer v ∧ ∀ result, left = .done result → result = .ok (some answer) := by
  cases h with
  | idle hidle _ =>
    rw [(hidle v hmem).not_commits] at hcommits
    cases hcommits
  | @books first last answer hidle hbooks hleft =>
    rcases List.mem_append.mp hmem with hfirst | hlast
    · rw [(hidle v hfirst).not_commits] at hcommits
      cases hcommits
    · obtain rfl := List.mem_singleton.mp hlast
      exact ⟨answer, hbooks, hleft⟩

/-- Of the clients that are done, exactly those have added that are arithmetic and have not failed. -/
theorem Errands.mem_contributors_iff (h : Errands key errand sys) (hrun : Ordered t schedule t')
    (hmet : ∀ entry ∈ sys.log schedule, ∃ n, entry.2.store.state.HoldsInteger key n) {i : ι}
    {result : Except Error (Option Int64)} (hdone : (sys.after schedule).program i = .done result) :
    i ∈ contributors errand (sys.log schedule) ↔ (errand i).adds = true ∧ result.isOk = true := by
  have hsettles := h.settles hrun hmet i
  rw [hdone] at hsettles
  rw [mem_contributors]
  constructor
  · rintro ⟨v, hmem, hcommits⟩
    obtain ⟨answer, hbooks, hleft⟩ := hsettles.of_mem hmem hcommits
    rw [hleft result rfl]
    exact ⟨hbooks.adds, rfl⟩
  · rintro ⟨hadds, hok⟩
    change Errand.Settles _ _ _ (System.ofClient i (sys.log schedule)) at hsettles
    generalize System.ofClient i (sys.log schedule) = visits at hsettles
    cases hsettles with
    | idle _ hleft =>
      cases result with
      | error err => cases hok
      | ok answer =>
        rw [hleft answer rfl] at hadds
        cases hadds
    | books _ hbooks _ => exact ⟨_, List.mem_append_right _ List.mem_cons_self, hbooks.commits⟩

/-- **The `k`-th client to add met the start and what the `k` before it have added**, and answers by that. -/
theorem Errands.previous_of_contributor (h : Errands key errand sys) (hrun : Ordered t schedule t')
    (hbalanced : Balanced errand key start (sys.log schedule) (sys.after schedule).store.state)
    {k : Nat} {i : ι} (hk : (contributors errand (sys.log schedule))[k]? = some i)
    {result : Except Error (Option Int64)} (hdone : (sys.after schedule).program i = .done result) :
    (sys.after schedule).previous? errand i =
      some (start.toInt + sumOfDeltas errand ((contributors errand (sys.log schedule)).take k)) := by
  rw [contributors, List.getElem?_map, Option.map_eq_some_iff] at hk
  obtain ⟨⟨j, v⟩, hentry, rfl⟩ := hk
  obtain ⟨hmem, hcommits⟩ := List.mem_filter.mp (List.mem_of_getElem? hentry)
  obtain ⟨n, hledger, -⟩ := hbalanced.ledger
  obtain ⟨met, hmet, hvalue⟩ := hledger.get hentry
  obtain ⟨answer, hbooks, hleft⟩ :=
    (h.settles hrun hbalanced.met j).of_mem (mem_ofClient.mpr hmem) hcommits
  obtain ⟨met', sum, hmet', -, -, hprevious⟩ := hbooks.shifts
  obtain rfl := hmet.unique hmet'
  have hresult := hleft result hdone
  rw [System.previous?, hdone, hresult, contributors, ← hvalue, ← hprevious]

omit [DecidableEq ι] in
theorem done_of_previous? {i : ι} (h : (sys.previous? errand i).isSome = true) :
    ∃ answer, sys.program i = .done (.ok (some answer)) := by
  unfold System.previous? at h
  split at h
  · exact ⟨_, ‹_›⟩
  · cases h

/-- **What arithmetic of many clients under one key amounts to**, at some moment: the key holds, for good,
the start and the amounts of all clients whose call to add has happened; no client has added twice; of the
clients that are done, exactly those have added that are arithmetic and have not failed; and each answers
by the start and the amounts before its own. -/
structure Tallied (key : String) (errand : ι → Errand) (start : Int64)
    (sys : System ι (Except Error (Option Int64))) (schedule : List (Instant × Turn ι)) (t' : Instant) :
    Prop where
  value : ∃ b n, (sys.after schedule).store.state.live t' key = some ⟨.bytes b, none⟩ ∧
    decode key b = .ok n ∧
    n.toInt = start.toInt + sumOfDeltas errand (contributors errand (sys.log schedule))
  once : (contributors errand (sys.log schedule)).Nodup
  answers : ∀ i result, (sys.after schedule).program i = .done result →
    (i ∈ contributors errand (sys.log schedule) ↔ (errand i).adds = true ∧ result.isOk = true)
  previous : ∀ k i result, (contributors errand (sys.log schedule))[k]? = some i →
    (sys.after schedule).program i = .done result →
    (sys.after schedule).previous? errand i =
      some (start.toInt + sumOfDeltas errand ((contributors errand (sys.log schedule)).take k))

/-- **No update is lost, and no ticket comes twice.** Any number of clients add to a key that holds an
integer for good, in any way and with any policy for retries, or construct further counters on it, among
deeds of others that leave the key alone. At every moment the additions so far are tallied. If all of them
are by one, and their clients have answered, the integers before the additions are the start and those
that follow it, each once. -/
theorem errands_tallied (counters : ι → Counter) {bytes : Bytes} (hs : Reachable t sys.store)
    (hrun : Ordered t schedule t') (hkey : ∀ i, (counters i).key = key)
    (hprogram : ∀ i, sys.program i = ExceptT.run ((errand i).action (counters i)))
    (hstart : sys.store.state.live t key = some ⟨.bytes bytes, none⟩)
    (hinteger : decode key bytes = .ok start) (hothers : sys.OthersSpare key schedule) :
    Tallied key errand start sys schedule t' ∧
      ((∀ i ∈ contributors errand (sys.log schedule), (errand i).delta = 1 ∧
          ((sys.after schedule).previous? errand i).isSome = true) →
        (contributors errand (sys.log schedule)).map ((sys.after schedule).previous? errand) =
          (List.range (contributors errand (sys.log schedule)).length).map
            fun (k : Nat) => some (start.toInt + k)) := by
  have herrands : Errands key errand sys := ⟨hs.wellFormed, fun i => ⟨counters i, hkey i, hprogram i⟩⟩
  have hbalanced := herrands.balanced hrun hothers
    ⟨bytes, State.entries_of_live hstart, hinteger⟩
  obtain ⟨n, hledger, b, hentry, hb⟩ := hbalanced.ledger
  refine ⟨⟨⟨b, n, State.live_of_forever hentry t', hb, hledger.total⟩, hbalanced.once,
    fun i result hdone => herrands.mem_contributors_iff hrun hbalanced.met hdone,
    fun k i result hk hdone => herrands.previous_of_contributor hrun hbalanced hk hdone⟩, ?_⟩
  intro hones
  refine List.ext_getElem? fun k => ?_
  rw [List.getElem?_map, List.getElem?_map]
  cases hk : (contributors errand (sys.log schedule))[k]? with
  | none =>
    rw [List.getElem?_eq_none (by simpa using List.getElem?_eq_none_iff.mp hk)]
    rfl
  | some i =>
    obtain ⟨hlt, -⟩ := List.getElem?_eq_some_iff.mp hk
    obtain ⟨answer, hdone⟩ := done_of_previous? (hones i (List.mem_of_getElem? hk)).2
    have hbefore : sumOfDeltas errand ((contributors errand (sys.log schedule)).take k) = k := by
      rw [sumOfDeltas_of_ones fun j hj => (hones j (List.mem_of_mem_take hj)).1, List.length_take,
        Nat.min_eq_left (Nat.le_of_lt hlt)]
    rw [List.getElem?_range hlt, Option.map_some, Option.map_some,
      herrands.previous_of_contributor hrun hbalanced hk hdone, hbefore]

/-- A client draws a ticket in rounds and another by one request that comes between its read and its
commit; so the first one's commit is refused, and its second round finds the next ticket. Meanwhile a
counter is constructed. -/
theorem errands_tallied_tickets :
    let counter : Counter :=
      { key := "n", retry := { RetryPolicy.standard with maxAttempts := 2 }, draw := fun _ => 1.0 }
    let errand : Fin 3 → Errand
      | 0 => .getAndIncrement
      | 1 => .incrementAndGet
      | 2 => .create {} fun _ => 1.0
    let sys : System (Fin 3) (Except Error (Option Int64)) :=
      { store := ({ maxEntries := 2 } : Store).perform 0 (.call (.request (.set "n" [0x35] none)))
        program := fun i => ExceptT.run ((errand i).action counter) }
    let schedule : List (Instant × Turn (Fin 3)) :=
      [(1, .other .cleanUp), (1, .client 0), (1, .client 0), (2, .client 1), (3, .client 0),
        (3, .client 2), (4, .client 0), (5, .client 0), (6, .client 0), (7, .client 0), (8, .client 0),
        (8, .client 1), (9, .client 0)]
    Tallied "n" errand 5 sys schedule 9 ∧
      [1, 0].map ((sys.after schedule).previous? errand) = [some 5, some 6] := by
  intro counter errand sys schedule
  have hs : Reachable 0 sys.store := ⟨2, .deed .refl (.call (.request (.set "n" [0x35] none)))⟩
  have hrun : Ordered 0 schedule 9 := by simp [schedule, Ordered]
  have hothers : sys.OthersSpare "n" schedule := ⟨rfl, trivial⟩
  have hstart : sys.store.state.live 0 "n" = some ⟨.bytes [0x35], none⟩ := rfl
  have hinteger : decode "n" [0x35] = .ok 5 := rfl
  obtain ⟨htallied, htickets⟩ := errands_tallied (fun _ => counter) hs hrun (fun _ => rfl)
    (fun _ => rfl) hstart hinteger hothers
  have hcontributors : contributors errand (sys.log schedule) = [1, 0] := by
    simp only [sys, schedule, errand, counter]
    decide +kernel
  have hanswered : ∀ i ∈ [1, 0], (errand i).delta = 1 ∧
      ((sys.after schedule).previous? errand i).isSome = true := by
    simp only [sys, schedule, errand, counter]
    decide +kernel
  rw [hcontributors] at htickets
  exact ⟨htallied, htickets hanswered⟩

end WatchedStore.Memory
