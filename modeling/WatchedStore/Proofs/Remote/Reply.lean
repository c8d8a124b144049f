import Mathlib.Data.List.Forall2
import WatchedStore.Remote.Client

/-!
# Replies of the same shape

A server's answer is a tree. Its nodes are listed from the root on, each before what it holds and what it
holds from the left to the right (`Datum.nodes`); a reply can carry some kinds of nodes and not the others
(`Datum.isCarried`). What it means that a reply has the shape of a datum is a relation of its own (`Tells`):
arrays and sets tell the same number of things in the same order, and leaves tell what they hold.

**The law** (`replies_faithful`): a datum of any depth becomes a reply exactly if all its nodes can be
carried, and then one of the same shape; otherwise the first node in the list that cannot be carried is
named. What a driver hands over as the answers to a batch or as the results of a commit is converted
likewise, as the list that it is, so nothing is dropped and nothing changes its place. How data and errors
are shown (`Display`) is up to the driver.

The induction is on the tree and on the lists inside it together (`convertsAll_toReply`). What carries it is
that the nodes of a list are those of its first datum and then those of the others, in which order the
conversion meets them too.
-/

namespace WatchedStore.Remote

namespace Datum

/-! ## Nodes -/

mutual

/-- **The nodes of a datum**: itself first, then the nodes of what it holds, from the left to the right. -/
def nodes : Datum → List Datum
  | .array items => .array items :: nodesOf items
  | .set items => .set items :: nodesOf items
  | .map entries => .map entries :: nodesIn entries
  | .attributed data attributes => .attributed data attributes :: (data.nodes ++ nodesIn attributes)
  | .push kind items => .push kind items :: nodesOf items
  | leaf => [leaf]

/-- The nodes of several data. -/
def nodesOf : List Datum → List Datum
  | [] => []
  | d :: rest => d.nodes ++ nodesOf rest

/-- The nodes in the entries of a map. -/
def nodesIn : List (Datum × Datum) → List Datum
  | [] => []
  | (k, v) :: rest => k.nodes ++ v.nodes ++ nodesIn rest

end

/-- **Whether a reply can carry a node of this kind.** -/
def isCarried : Datum → Bool
  | .nil | .integer _ | .bulk _ | .simple _ | .boolean _ | .array _ | .set _ | .error _ => true
  | .double _ | .map _ | .attributed .. | .verbatim .. | .bigInteger _ | .push .. => false

end Datum

/-! ## Shapes -/

/-- **A reply has the shape of a datum.** -/
inductive Tells (display : Display) : Datum → Reply → Prop
  | nil : Tells display .nil .nil
  | integer (n : Int64) : Tells display (.integer n) (.integer n)
  | bulk (bytes : Bytes) : Tells display (.bulk bytes) (.data bytes)
  | simple (text : String) : Tells display (.simple text) (.status text)
  | boolean (b : Bool) : Tells display (.boolean b) (.integer (if b then 1 else 0))
  | array {items : List Datum} {replies : List Reply} (h : List.Forall₂ (Tells display) items replies) :
    Tells display (.array items) (.array replies)
  | set {items : List Datum} {replies : List Reply} (h : List.Forall₂ (Tells display) items replies) :
    Tells display (.set items) (.array replies)
  | error (e : ServerError) : Tells display (.error e) (.error (display.error e))

/-- **A faithful conversion** of data with these nodes: it succeeds exactly if all of them can be carried,
what it answers has a shape that is asked for, and if it fails it names the first node that cannot. -/
structure Faithful (display : Display) (nodes : List Datum) (Shape : α → Prop) (answer : Except Error α) :
    Prop where
  succeeds_iff : (∃ a, answer = .ok a) ↔ ∀ node ∈ nodes, node.isCarried = true
  shape : ∀ a, answer = .ok a → Shape a
  fails : ∀ e, answer = .error e → ∃ before node after, nodes = before ++ node :: after ∧
    (∀ earlier ∈ before, earlier.isCarried = true) ∧ node.isCarried = false ∧
    e = .serialization ("Unsupported Redis value type: " ++ display.datum node)

/-! ## Conversion -/

/-- The outcome by the first node that cannot be carried. -/
def Converts (display : Display) (nodes : List Datum) (Shape : α → Prop) (answer : Except Error α) : Prop :=
  match nodes.find? fun node => !node.isCarried with
  | none => ∃ a, answer = .ok a ∧ Shape a
  | some node => answer = .error (Datum.unsupported display node)

namespace Converts

variable {display : Display} {nodes : List Datum} {Shape : α → Prop} {answer : Except Error α}

theorem faithful (h : Converts display nodes Shape answer) : Faithful display nodes Shape answer := by
  unfold Converts at h
  cases hfind : nodes.find? (fun node => !node.isCarried) with
  | none =>
    rw [hfind] at h
    obtain ⟨a, rfl, hshape⟩ := h
    refine ⟨⟨fun _ node hmem => ?_, fun _ => ⟨a, rfl⟩⟩, fun b hb => ?_, fun e he => by cases he⟩
    · simpa using List.find?_eq_none.mp hfind node hmem
    · cases hb
      exact hshape
  | some node =>
    rw [hfind] at h
    subst h
    obtain ⟨hnot, before, after, hsplit, hbefore⟩ := List.find?_eq_some_iff_append.mp hfind
    have hnot : node.isCarried = false := by simpa using hnot
    have hmem : node ∈ nodes := by simp [hsplit]
    refine ⟨⟨fun ⟨a, ha⟩ => (by cases ha), fun hall => ?_⟩, fun a ha => (by cases ha), fun e he => ?_⟩
    · rw [hall node hmem] at hnot
      cases hnot
    · cases he
      exact ⟨before, node, after, hsplit, fun earlier h => by simpa using hbefore earlier h, hnot, rfl⟩

/-- What is done with an answer changes its shape only. -/
theorem map {β : Type} {Shape' : β → Prop} {f : α → β} (h : Converts display nodes Shape answer)
    (hshape : ∀ a, Shape a → Shape' (f a)) : Converts display nodes Shape' (f <$> answer) := by
  unfold Converts at h ⊢
  cases hfind : nodes.find? (fun node => !node.isCarried) with
  | none =>
    rw [hfind] at h
    obtain ⟨a, rfl, ha⟩ := h
    exact ⟨f a, rfl, hshape a ha⟩
  | some node =>
    rw [hfind] at h
    subst h
    rfl

/-- A node that can be carried is passed over. -/
theorem of_carried {root : Datum} (hroot : root.isCarried = true) (h : Converts display nodes Shape answer) :
    Converts display (root :: nodes) Shape answer := by
  unfold Converts at h ⊢
  rw [List.find?_cons_of_neg (by simp [hroot])]
  exact h

/-- A root that cannot be carried is named, whatever it holds. -/
theorem of_not_carried {root : Datum} (hroot : root.isCarried = false) :
    Converts display (root :: nodes) Shape (.error (Datum.unsupported display root)) := by
  unfold Converts
  rw [List.find?_cons_of_pos (by simp [hroot])]

/-- A leaf that can be carried. -/
theorem of_leaf {leaf : Datum} {a : α} (hleaf : leaf.isCarried = true) (ha : Shape a) :
    Converts display [leaf] Shape (.ok a) :=
  of_carried hleaf ⟨a, rfl, ha⟩

end Converts

/-- The first datum is met before the others. -/
theorem convertsAll_cons {display : Display} {d : Datum} {rest : List Datum}
    (hd : Converts display d.nodes (Tells display d) (d.toReply display))
    (hrest : Converts display (Datum.nodesOf rest) (List.Forall₂ (Tells display) rest)
      (Datum.toReplies display rest)) :
    Converts display (Datum.nodesOf (d :: rest)) (List.Forall₂ (Tells display) (d :: rest))
      (Datum.toReplies display (d :: rest)) := by
  unfold Converts at hd hrest ⊢
  simp only [Datum.nodesOf, List.find?_append, Datum.toReplies]
  cases hfirst : d.nodes.find? (fun node => !node.isCarried) with
  | some node =>
    rw [hfirst] at hd
    simp only [hd, Option.some_or]
  | none =>
    rw [hfirst] at hd
    obtain ⟨r, hr, htells⟩ := hd
    simp only [hr, Option.none_or]
    cases hnext : (Datum.nodesOf rest).find? (fun node => !node.isCarried) with
    | some node =>
      rw [hnext] at hrest
      simp only [hrest]
    | none =>
      rw [hnext] at hrest
      obtain ⟨replies, hreplies, hall⟩ := hrest
      simp only [hreplies]
      exact ⟨r :: replies, rfl, .cons htells hall⟩

mutual

theorem converts_toReply (display : Display) :
    (d : Datum) → Converts display d.nodes (Tells display d) (d.toReply display)
  | .nil => .of_leaf rfl .nil
  | .integer n => .of_leaf rfl (.integer n)
  | .bulk bytes => .of_leaf rfl (.bulk bytes)
  | .simple text => .of_leaf rfl (.simple text)
  | .boolean b => .of_leaf rfl (.boolean b)
  | .error e => .of_leaf rfl (.error e)
  | .array items => .of_carried rfl ((convertsAll_toReply display items).map fun _ => .array)
  | .set items => .of_carried rfl ((convertsAll_toReply display items).map fun _ => .set)
  | .double _ => .of_not_carried rfl
  | .map _ => .of_not_carried rfl
  | .attributed .. => .of_not_carried rfl
  | .verbatim .. => .of_not_carried rfl
  | .bigInteger _ => .of_not_carried rfl
  | .push .. => .of_not_carried rfl

theorem convertsAll_toReply (display : Display) : (data : List Datum) →
    Converts display (Datum.nodesOf data) (List.Forall₂ (Tells display) data)
      (Datum.toReplies display data)
  | [] => ⟨[], rfl, .nil⟩
  | d :: rest => convertsAll_cons (converts_toReply display d) (convertsAll_toReply display rest)

end

/-! ## Batches and commits -/

namespace Driver

variable {σ : Type} {d : Driver σ} {s s' : σ} {commands : List Command}

/-- What a driver hands over for a batch becomes its replies. -/
theorem request_batch_of_answered {data : List Datum}
    (h : d.query (d.shared s) (commands.map Command.wire) s = (.ok data, s')) :
    d.request (.batch commands) s = (Datum.toReplies d.display data, s') := by
  have hbatch : d.batch commands s = (Datum.toReplies d.display data, s') := by
    simp only [batch, h]
  exact hbatch

/-- The results of a commit that was carried out become its replies. -/
theorem exec_of_answered {tx : Transaction} {results : List Datum}
    (h : d.commit tx.connection (commands.map Command.wire) s = (.ok (some results), s')) :
    d.exec tx commands s = (some <$> Datum.toReplies d.display results, s') := by
  simp only [exec, h]

end Driver

/-- **Replies are faithful**: of a datum of any depth, of several data in their order, of what answers a
batch, and of what a commit that was carried out results in. -/
theorem replies_faithful {σ : Type} (d : Driver σ) :
    (∀ datum : Datum, Faithful d.display datum.nodes (Tells d.display datum) (datum.toReply d.display)) ∧
    (∀ data : List Datum, Faithful d.display (data.flatMap Datum.nodes)
      (List.Forall₂ (Tells d.display) data) (Datum.toReplies d.display data)) ∧
    (∀ (s s' : σ) (commands : List Command) (data : List Datum),
      d.query (d.shared s) (commands.map Command.wire) s = (.ok data, s') →
      Faithful d.display (data.flatMap Datum.nodes) (List.Forall₂ (Tells d.display) data)
        (d.request (.batch commands) s).1) ∧
    ∀ (s s' : σ) (tx : Transaction) (commands : List Command) (results : List Datum),
      d.commit tx.connection (commands.map Command.wire) s = (.ok (some results), s') →
      Faithful d.display (results.flatMap Datum.nodes)
        (fun answer => ∃ replies, answer = some replies ∧ List.Forall₂ (Tells d.display) results replies)
        (d.exec tx commands s).1 := by
  have hflat : ∀ data : List Datum, Datum.nodesOf data = data.flatMap Datum.nodes := by
    intro data
    induction data with
    | nil => rfl
    | cons datum rest ih => rw [Datum.nodesOf, List.flatMap_cons, ih]
  refine ⟨fun datum => (converts_toReply d.display datum).faithful, fun data => ?_,
    fun s s' commands data h => ?_, fun s s' tx commands results h => ?_⟩
  · rw [← hflat]
    exact (convertsAll_toReply d.display data).faithful
  · rw [← hflat, Driver.request_batch_of_answered h]
    exact (convertsAll_toReply d.display data).faithful
  · rw [← hflat, Driver.exec_of_answered h]
    exact ((convertsAll_toReply d.display results).map fun replies hall => ⟨replies, rfl, hall⟩).faithful

/-- A batch whose second answer holds a map deep inside, and then a commit that results in a list inside a
set: the batch fails, and the commit keeps its shape. -/
theorem replies_faithful_map_inside :
    let listed : Datum := .array [.nil, .boolean true, .simple "OK"]
    let entry : Datum := .map [(.bulk [0x6B], .nil)]
    let c : Client :=
      { settings := {}
        script := { turns := [.answer listed, .answer (.array [.set [.integer 7, entry], .double 2.0]),
          .answer (.simple "OK"), .answer (.simple "QUEUED"), .answer (.array [.set [listed]])] } }
    let batched := Client.driver.request (.batch [.get "a", .delete "b"]) c
    let committed := Client.driver.exec ⟨1, ["a"]⟩ [.get "a"] batched.2
    (¬ ∃ replies, batched.1 = .ok replies) ∧
      ∃ replies, committed.1 = .ok (some replies) ∧
        List.Forall₂ (Tells .standard) [.set [listed]] replies := by
  intro listed entry c batched committed
  obtain ⟨-, -, hbatch, hexec⟩ := replies_faithful Client.driver
  have hbatched := hbatch c _ [.get "a", .delete "b"]
    [listed, .array [.set [.integer 7, entry], .double 2.0]] rfl
  have hcommitted := hexec batched.2 _ ⟨1, ["a"]⟩ [.get "a"] [.set [listed]] rfl
  constructor
  · intro hok
    have hinside : entry ∈ [listed, .array [.set [.integer 7, entry], .double 2.0]].flatMap Datum.nodes := by
      simp [entry, Datum.nodes, Datum.nodesOf]
    exact absurd (hbatched.succeeds_iff.mp hok entry hinside) Bool.false_ne_true
  · have hall : ∀ node ∈ [Datum.set [listed]].flatMap Datum.nodes, node.isCarried = true := by
      simp [listed, Datum.nodes, Datum.nodesOf, Datum.isCarried]
    obtain ⟨answer, hanswer⟩ := hcommitted.succeeds_iff.mpr hall
    obtain ⟨replies, rfl, htells⟩ := hcommitted.shape answer hanswer
    exact ⟨replies, hanswer, htells⟩

end WatchedStore.Remote
