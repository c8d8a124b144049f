import WatchedStore.Remote.Client

/-!
# What servers receive

What a driver does is seen from outside: the commands that the server has received and over which
connections, the connections that are out of use, and whether the server answers all commands to come
(`View`). Of the commands that are handed over a server receives the first ones, in their order, and all of
them if it answers (`Driver.Delivered`).

This is what a client relies on (`Driver.Delivers`), along with the commands that enclose a commit. From it
follows what the server receives of a request and of a commit (`request_delivered`, `exec_delivered`). The
driver that talks to scripted servers can be relied on (`Client.delivers`).
-/

namespace WatchedStore.Remote

/-- What is seen of a driver's states. -/
structure View (σ : Type) where
  /-- The commands that the server received, with the connections that they came from. -/
  received : σ → List (Nat × WireCommand)
  /-- The connections that are out of use. -/
  closed : σ → List Nat
  /-- Whether the server answers every command to come. -/
  Answers : σ → Prop

/-- **What a server receives** of the commands written on a connection: the first of them, and one at least
if the connection is in use. -/
def View.Receives {σ : Type} (v : View σ) (connection : Nat) (s s' : σ) (ws : List WireCommand) : Prop :=
  ∃ n, v.received s' = v.received s ++ (ws.take n).map (connection, ·) ∧
    ((v.closed s).contains connection = false → ws ≠ [] → 1 ≤ n)

namespace Driver

variable {σ : Type} {d : Driver σ} {v : View σ} {connection : Nat} {ws ws' : List WireCommand}
  {s s' s'' : σ}

/-- **What is sent on the way from one state to the next**: the server received these commands on a
connection and nothing else, and goes on to answer every command; no connection changed. -/
structure Sends (d : Driver σ) (v : View σ) (connection : Nat) (ws : List WireCommand) (s s' : σ) :
    Prop where
  received : v.received s' = v.received s ++ ws.map (connection, ·)
  answers : v.Answers s'
  shared : d.shared s' = d.shared s
  closed : v.closed s' = v.closed s

/-- **Commands are delivered** on a connection: a server that answers receives all of them. -/
structure Delivered (d : Driver σ) (v : View σ) (connection : Nat) (ws : List WireCommand) (s s' : σ) :
    Prop where
  first : v.Receives connection s s' ws
  all : v.Answers s → (v.closed s).contains connection = false → d.Sends v connection ws s s'

/-- **What a client relies on**: what it hands over is delivered, a commit between the commands that open
and close it, and nothing is sent for a report. -/
structure Delivers (d : Driver σ) (v : View σ) : Prop where
  send : ∀ connection w s, d.Delivered v connection [w] s (d.send connection w s).2
  query : ∀ connection ws s, d.Delivered v connection ws s (d.query connection ws s).2
  commit : ∀ connection ws s, ws ≠ [] →
    d.Delivered v connection (committed ws) s (d.commit connection ws s).2
  note : ∀ connection e s, d.Delivered v connection [] s (d.note e s)

theorem Sends.trans (h : d.Sends v connection ws s s') (h' : d.Sends v connection ws' s' s'') :
    d.Sends v connection (ws ++ ws') s s'' where
  received := by rw [h'.received, h.received, List.append_assoc, List.map_append]
  answers := h'.answers
  shared := h'.shared.trans h.shared
  closed := h'.closed.trans h.closed

/-- What is delivered does not change when nothing follows. -/
theorem Delivered.append_nil (h : d.Delivered v connection ws s s')
    (h' : d.Delivered v connection [] s' s'') : d.Delivered v connection ws s s'' where
  first := by
    obtain ⟨n, hreceived, hone⟩ := h.first
    obtain ⟨m, hreceived', -⟩ := h'.first
    refine ⟨n, ?_, hone⟩
    rw [hreceived', hreceived, List.take_nil, List.map_nil, List.append_nil]
  all := fun hanswers hopen => by
    have hsends := h.all hanswers hopen
    have hsends' := h'.all hsends.answers (by rw [hsends.closed]; exact hopen)
    have hboth := hsends.trans hsends'
    rwa [List.append_nil] at hboth

section

variable (hd : d.Delivers v)
include hd

/-- A reported request delivers what it has delivered. -/
theorem traced_delivered (operation key : String) {result : Except Error α × σ}
    (h : d.Delivered v connection ws s result.2) :
    d.Delivered v connection ws s (d.traced operation key result).2 :=
  h.append_nil (hd.note connection _ _)

/-- **A direct request delivers what it writes.** -/
theorem request_delivered (r : Request) (s : σ) :
    d.Delivered v (d.shared s) (d.helpers.wire r) s (d.request r s).2 := by
  cases r with
  | batch commands =>
    have hquery := hd.query (d.shared s) (commands.map Command.wire) s
    unfold request batch
    dsimp only
    split <;> rename_i heq <;> rw [heq] at hquery <;> exact hquery
  | get | set | getSet | increment | decrement => exact traced_delivered hd _ _ (hd.send _ _ s)
  | _ => exact hd.send _ _ s

/-- **A commit delivers what it encloses.** -/
theorem exec_delivered (tx : Transaction) {commands : List Command} (hcommands : commands ≠ []) (s : σ) :
    d.Delivered v tx.connection (committed (commands.map Command.wire)) s (d.exec tx commands s).2 := by
  have hcommit := hd.commit tx.connection (commands.map Command.wire) s (by simpa using hcommands)
  unfold exec
  split <;> rename_i heq <;> rw [heq] at hcommit
  · exact hcommit
  · exact hcommit
  · exact hcommit.append_nil (hd.note _ _ _)

end

end Driver

/-! ## Scripted servers -/

namespace Client

variable {c : Client} {connection : Nat}

/-- What is seen of a client: the script's turns tell whether all commands are answered. -/
def view : View Client where
  received c := c.script.received
  closed c := c.closed
  Answers c := ∀ turn ∈ c.script.turns, ∃ d, turn = .answer d

/-- A server keeps what it receives. -/
theorem receive_received (script : Script) (connection : Nat) (w : WireCommand) :
    (script.receive connection w).2.received = script.received ++ [(connection, w)] := by
  unfold Script.receive
  split <;> rfl

/-- A server that answers every command answers this one and goes on so. -/
theorem receive_answers (connection : Nat) (w : WireCommand) (h : view.Answers c) :
    ∃ d script, c.script.receive connection w = (.answer d, script) ∧
      view.Answers { c with script } := by
  unfold Script.receive
  split
  · exact ⟨_, _, rfl, h⟩
  · rename_i turn turns hturns
    obtain ⟨d, rfl⟩ := h turn (by simp [hturns])
    exact ⟨d, _, rfl, fun later hlater => h later (by simp [hturns, hlater])⟩

/-- After an answer the other commands are sent. -/
theorem exchangeOpen_of_answer {w : WireCommand} {rest : List WireCommand} {d : Datum} {script : Script}
    (h : c.script.receive connection w = (.answer d, script)) :
    (exchangeOpen connection (w :: rest) c).2 = (exchangeOpen connection rest { c with script }).2 := by
  rw [exchangeOpen, h]
  dsimp only
  split <;> rename_i heq <;> rw [heq]

/-- The first commands are received, up to a turn that is no answer. -/
theorem exchangeOpen_received (connection : Nat) (ws : List WireCommand) (c : Client) :
    ∃ n, (exchangeOpen connection ws c).2.script.received =
      c.script.received ++ (ws.take n).map (connection, ·) ∧ (ws ≠ [] → 1 ≤ n) := by
  induction ws generalizing c with
  | nil => exact ⟨0, (List.append_nil _).symm, fun h => absurd rfl h⟩
  | cons w rest ih =>
    obtain ⟨turn, script, hturn⟩ : ∃ turn script, c.script.receive connection w = (turn, script) :=
      ⟨_, _, rfl⟩
    have hreceived : script.received = c.script.received ++ [(connection, w)] := by
      rw [← receive_received, hturn]
    cases turn with
    | close =>
      refine ⟨1, Eq.trans ?_ hreceived, fun _ => Nat.le_refl 1⟩
      simp only [exchangeOpen, hturn, close]
      split <;> rfl
    | stall =>
      refine ⟨1, Eq.trans ?_ hreceived, fun _ => Nat.le_refl 1⟩
      simp only [exchangeOpen, hturn]
    | answer d =>
      obtain ⟨n, hrest, -⟩ := ih { c with script }
      refine ⟨n + 1, ?_, fun _ => Nat.le_add_left 1 n⟩
      rw [exchangeOpen_of_answer hturn, hrest, hreceived, List.append_assoc]
      rfl

/-- A server that answers every command receives all of them. -/
theorem exchangeOpen_sends (connection : Nat) (ws : List WireCommand) (h : view.Answers c) :
    driver.Sends view connection ws c (exchangeOpen connection ws c).2 := by
  induction ws generalizing c with
  | nil => exact ⟨(List.append_nil _).symm, h, rfl, rfl⟩
  | cons w rest ih =>
    obtain ⟨d, script, hturn, hlater⟩ := receive_answers connection w h
    have hreceived : script.received = c.script.received ++ [(connection, w)] := by
      rw [← receive_received, hturn]
    have hfirst : driver.Sends view connection [w] c { c with script } := ⟨hreceived, hlater, rfl, rfl⟩
    rw [exchangeOpen_of_answer hturn]
    exact hfirst.trans (ih hlater)

/-- An exchange delivers its commands, whatever is made of the answers. -/
theorem converse_delivered (connection : Nat) (ws : List WireCommand)
    (read : List Datum → Except Failure α) (c : Client) :
    driver.Delivered view connection ws c (c.converse connection ws read).2 := by
  unfold converse exchange
  dsimp only
  split
  · rename_i hclosed
    have hshut : ¬ (view.closed c).contains connection = false := fun hopen =>
      Bool.noConfusion (hclosed.symm.trans hopen)
    exact ⟨⟨0, (List.append_nil _).symm, fun hopen => absurd hopen hshut⟩,
      fun _ hopen => absurd hopen hshut⟩
  · obtain ⟨n, hreceived, hone⟩ := exchangeOpen_received connection ws c
    exact ⟨⟨n, hreceived, fun _ => hone⟩, fun hanswers _ => exchangeOpen_sends connection ws hanswers⟩

/-- **The driver of clients can be relied on.** -/
theorem delivers : driver.Delivers view where
  send connection w c := converse_delivered connection [w] readOne c
  query connection ws c := converse_delivered connection ws readAll c
  commit connection ws c hws := by
    have hsome : ¬ ws.isEmpty = true := by simpa using hws
    change driver.Delivered view connection (committed ws) c (if ws.isEmpty then _ else _ : _ × Client).2
    rw [if_neg hsome]
    exact converse_delivered connection (committed ws) readCommit c
  note connection e c :=
    ⟨⟨0, (List.append_nil _).symm, fun _ h => absurd rfl h⟩,
      fun hanswers _ => ⟨(List.append_nil _).symm, hanswers, rfl, rfl⟩⟩

end Client

end WatchedStore.Remote
