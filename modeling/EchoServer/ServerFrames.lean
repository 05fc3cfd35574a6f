import EchoServer.Outlives

/-!
# What an operation of one connection leaves alone

`onConn` stores the outcome of an operation and replays its effects.
`Replayed` says what a replay can change: functors of that connection are
added to the queue of its loop, or `removeConnectionInLoop` to that of the base
loop, and the connection may leave the table once its `connectDestroyed` is
queued. `onConn_cases` puts the two together.
-/

namespace EchoServer

open Runs Trace

namespace Server

variable {k : Nat}

/-- A functor that connection `c` of loop `ℓ` hands to loop `ℓ'`. -/
def QueuedBy (c : ConnId) (ℓ : Fin (k + 1)) (trace : List Effect) (ℓ' : Fin (k + 1))
    (f : BoundFunctor) : Prop :=
  f.conn = c ∧ (ℓ' = ℓ ∧ .queueInLoop f.functor ∈ trace ∨
    ℓ' = baseLoop ∧ f.functor = .removeConnectionInLoop ∨ ℓ' = ℓ ∧ f.functor = .connectDestroyed)

structure Replayed (c : ConnId) (ℓ : Fin (k + 1)) (trace : List Effect) (s t : Server k) :
    Prop where
  names : t.connName = s.connName
  counter : t.nextConnId = s.nextConnId
  conns : t.conns = s.conns
  lifetime : t.lifetime = s.lifetime
  users : t.users = s.users
  calls : t.calls = s.calls
  poller : ∀ ℓ', (t.loops ℓ').poller = (s.loops ℓ').poller
  phase : ∀ ℓ', (t.loops ℓ').phase = (s.loops ℓ').phase
  pending : ∀ ℓ', Extends (QueuedBy c ℓ trace ℓ') (s.loops ℓ').pending (t.loops ℓ').pending
  erased : ∀ p ∈ s.connections, p ∈ t.connections ∨
    (∃ sc, s.conns c = some sc ∧ p.1 = sc.name) ∧ ⟨c, .connectDestroyed⟩ ∈ (t.loops ℓ).pending

variable {c : ConnId} {ℓ : Fin (k + 1)} {trace : List Effect}

theorem Replayed.refl (s : Server k) : Replayed c ℓ trace s s where
  names := rfl
  counter := rfl
  conns := rfl
  lifetime := rfl
  users := rfl
  calls := rfl
  poller _ := rfl
  phase _ := rfl
  pending _ := Extends.refl _ _
  erased _ hp := Or.inl hp

theorem Replayed.trans {s t u : Server k} (h : Replayed c ℓ trace s t)
    (h' : Replayed c ℓ trace t u) : Replayed c ℓ trace s u where
  names := h'.names.trans h.names
  counter := h'.counter.trans h.counter
  conns := h'.conns.trans h.conns
  lifetime := h'.lifetime.trans h.lifetime
  users := h'.users.trans h.users
  calls := h'.calls.trans h.calls
  poller ℓ' := (h'.poller ℓ').trans (h.poller ℓ')
  phase ℓ' := (h'.phase ℓ').trans (h.phase ℓ')
  pending ℓ' := (h.pending ℓ').trans (h'.pending ℓ')
  erased p hp := by
    rcases h.erased p hp with hp | ⟨hname, hqueued⟩
    · rcases h'.erased p hp with hp | ⟨hname, hqueued⟩
      · exact Or.inl hp
      · rw [h.conns] at hname
        exact Or.inr ⟨hname, hqueued⟩
    · exact Or.inr ⟨hname, (h'.pending ℓ).mem_of_mem hqueued⟩

theorem queueInLoop_replayed (s : Server k) {ℓ' : Fin (k + 1)} {f : BoundFunctor}
    (hf : QueuedBy c ℓ trace ℓ' f) : Replayed c ℓ trace s (s.queueInLoop ℓ' f) where
  names := rfl
  counter := rfl
  conns := rfl
  lifetime := rfl
  users := rfl
  calls := rfl
  poller ℓ'' := by
    by_cases hℓ : ℓ'' = ℓ'
    · simp [queueInLoop, hℓ]
    · simp [queueInLoop, setLoop_loops_ne s _ hℓ]
  phase ℓ'' := by
    by_cases hℓ : ℓ'' = ℓ'
    · simp [queueInLoop, hℓ]
    · simp [queueInLoop, setLoop_loops_ne s _ hℓ]
  pending ℓ'' := by
    by_cases hℓ : ℓ'' = ℓ'
    · subst hℓ
      rw [queueInLoop, setLoop_loops_self]
      exact Extends.one hf _
    · rw [queueInLoop, setLoop_loops_ne s _ hℓ]
      exact Extends.refl _ _
  erased _ hp := Or.inl hp

theorem removeConnectionInLoop_replayed {s : Server k} {sc : ServerConn k}
    (hconn : s.conns c = some sc) (hloop : sc.loop = ℓ) :
    Replayed c ℓ trace s (s.removeConnectionInLoop c) := by
  subst hloop
  have hqueue : Replayed c sc.loop trace (s.eraseConnection sc.name)
      ((s.eraseConnection sc.name).queueInLoop sc.loop ⟨c, .connectDestroyed⟩) :=
    queueInLoop_replayed _ ⟨rfl, Or.inr (Or.inr ⟨rfl, rfl⟩)⟩
  simp only [removeConnectionInLoop, hconn]
  exact
    { names := rfl
      counter := rfl
      conns := rfl
      lifetime := rfl
      users := rfl
      calls := rfl
      poller := hqueue.poller
      phase := hqueue.phase
      pending := hqueue.pending
      erased := by
        intro p hp
        by_cases hname : p.1 = sc.name
        · refine Or.inr ⟨⟨sc, hconn, hname⟩, ?_⟩
          rw [queueInLoop, setLoop_loops_self]
          simp
        · exact Or.inl (List.mem_filter.mpr ⟨hp, by simpa using hname⟩) }

theorem replay_replayed {s : Server k} {sc : ServerConn k} (hconn : s.conns c = some sc)
    (hloop : sc.loop = ℓ) {e : Effect} (he : e ∈ trace) :
    Replayed c ℓ trace s (replay c ℓ s e) := by
  cases e with
  | queueInLoop f => exact queueInLoop_replayed s ⟨rfl, Or.inl ⟨rfl, he⟩⟩
  | closeCallback =>
    simp only [replay, removeConnection]
    split
    · exact removeConnectionInLoop_replayed hconn hloop
    · exact queueInLoop_replayed s ⟨rfl, Or.inr (Or.inl ⟨rfl, rfl⟩)⟩
  | _ => exact Replayed.refl s

/-- An operation is stored and then replayed. -/
theorem onConn_cases {s : Server k} {sc : ServerConn k} (hconn : s.conns c = some sc)
    (op : Conn → Conn) :
    Replayed c sc.loop (op (s.assemble sc)).trace (s.store c sc (op (s.assemble sc)))
      (s.onConn c op) := by
  have hstored : (s.store c sc (op (s.assemble sc))).conns c =
      some { sc with tcp := (op (s.assemble sc)).tcp } := by
    simp [store, setConn, setLoop]
  simp only [onConn, hconn]
  refine List.foldlRecOn (motive := Replayed c sc.loop (op (s.assemble sc)).trace
    (s.store c sc (op (s.assemble sc)))) _ _ (Replayed.refl _) ?_
  intro t ht e he
  have hconn' : t.conns c = some { sc with tcp := (op (s.assemble sc)).tcp } := by
    rw [ht.conns, hstored]
  exact ht.trans (replay_replayed hconn' rfl he)

theorem onConn_of_none {s : Server k} (hconn : s.conns c = none) (op : Conn → Conn) :
    s.onConn c op = s := by
  simp [onConn, hconn]

/-! ## Storing -/

theorem store_conns_self (s : Server k) (c : ConnId) (sc : ServerConn k) (r : Conn) :
    (s.store c sc r).conns c = some { sc with tcp := r.tcp } := by
  simp [store, setConn, setLoop]

theorem store_conns_ne (s : Server k) {c c' : ConnId} (sc : ServerConn k) (r : Conn)
    (h : c' ≠ c) : (s.store c sc r).conns c' = s.conns c' := by
  simp [store, setConn, setLoop, Function.update_of_ne h]

theorem store_poller_self (s : Server k) (c : ConnId) (sc : ServerConn k) (r : Conn) :
    ((s.store c sc r).loops sc.loop).poller = r.poller := by
  simp [store]

theorem store_poller_ne (s : Server k) (c : ConnId) {sc : ServerConn k} (r : Conn)
    {ℓ : Fin (k + 1)} (h : ℓ ≠ sc.loop) :
    ((s.store c sc r).loops ℓ).poller = (s.loops ℓ).poller := by
  simp [store, setLoop_loops_ne _ _ h, setConn]

theorem store_phase (s : Server k) (c : ConnId) (sc : ServerConn k) (r : Conn)
    (ℓ : Fin (k + 1)) : ((s.store c sc r).loops ℓ).phase = (s.loops ℓ).phase := by
  by_cases hℓ : ℓ = sc.loop
  · simp [store, hℓ]
  · simp [store, setLoop_loops_ne _ _ hℓ, setConn]

theorem store_pending (s : Server k) (c : ConnId) (sc : ServerConn k) (r : Conn)
    (ℓ : Fin (k + 1)) : ((s.store c sc r).loops ℓ).pending = (s.loops ℓ).pending := by
  by_cases hℓ : ℓ = sc.loop
  · simp [store, hℓ]
  · simp [store, setLoop_loops_ne _ _ hℓ, setConn]

/-! ## Changing the phase -/

theorem setPhase_poller (s : Server k) (ℓ : Fin (k + 1)) (p : Phase) (ℓ' : Fin (k + 1)) :
    ((s.setPhase ℓ p).loops ℓ').poller = (s.loops ℓ').poller := by
  by_cases hℓ : ℓ' = ℓ
  · simp [setPhase, hℓ]
  · rw [setPhase, setLoop_loops_ne s _ hℓ]

theorem setPhase_assemble (s : Server k) (ℓ : Fin (k + 1)) (p : Phase) (sc : ServerConn k) :
    (s.setPhase ℓ p).assemble sc = s.assemble sc := by
  rw [assemble, setPhase_poller]
  rfl

/-! ## Threads -/

/-- What users and their threads do, and `~TcpServer`, is as before. -/
structure SameThreads (s s' : Server k) : Prop where
  users : s'.users = s.users
  calls : s'.calls = s.calls
  lifetime : s'.lifetime = s.lifetime

theorem onConn_threads (s : Server k) (c : ConnId) (op : Conn → Conn) :
    SameThreads s (s.onConn c op) := by
  cases hconn : s.conns c with
  | none =>
    rw [onConn_of_none hconn]
    exact ⟨rfl, rfl, rfl⟩
  | some sc =>
    have h := onConn_cases hconn op
    exact ⟨h.users, h.calls, h.lifetime⟩

theorem removeConnectionInLoop_threads (s : Server k) (c : ConnId) :
    SameThreads s (s.removeConnectionInLoop c) := by
  unfold removeConnectionInLoop
  split
  · exact ⟨rfl, rfl, rfl⟩
  · exact ⟨rfl, rfl, rfl⟩

theorem removeConnectionInLoop_conns (s : Server k) (c : ConnId) :
    (s.removeConnectionInLoop c).conns = s.conns := by
  unfold removeConnectionInLoop
  split
  · rfl
  · rfl

theorem execute_threads (s : Server k) (f : BoundFunctor) (mem : Nat → Byte) (a : Conn.Answers) :
    SameThreads s (s.execute f mem a) := by
  unfold execute call
  split
  · split
    · exact onConn_threads s _ _
    · exact onConn_threads s _ _
    · exact onConn_threads s _ _
    · exact onConn_threads s _ _
    · exact removeConnectionInLoop_threads s _
    · exact ⟨rfl, rfl, rfl⟩
    · exact ⟨rfl, rfl, rfl⟩
    · exact ⟨rfl, rfl, rfl⟩
  · exact ⟨rfl, rfl, rfl⟩

theorem LoopStep.threads {s s' : Server k} {ℓ : Fin (k + 1)} {e : LoopLabel}
    (h : LoopStep s ℓ e s') : SameThreads s s' := by
  cases h with
  | part c p rest active a hphase =>
    have hop := onConn_threads (s.setPhase ℓ (.handling c rest active)) c (·.runPart p a)
    exact ⟨hop.users, hop.calls, hop.lifetime⟩
  | functor done rest f mem a hphase =>
    have hrun := execute_threads (s.setPhase ℓ (.functors (done ++ [f]) rest)) f mem a
    exact ⟨hrun.users, hrun.calls, hrun.lifetime⟩
  | userCall c u hpolling hexited hlives => exact onConn_threads s c _
  | _ => exact ⟨rfl, rfl, rfl⟩

theorem newConnection_threads (s : Server k) (fd : Nat) (ioLoop : Fin (k + 1)) (wc hw : Bool)
    (mark : Nat) (us : List UserCall) :
    SameThreads s (s.newConnection fd ioLoop wc hw mark us) := by
  unfold newConnection
  split
  · have hop := onConn_threads (s.addConnection fd ioLoop wc hw mark) s.nextConnId
      (·.connectEstablished us)
    exact ⟨hop.users, hop.calls, hop.lifetime⟩
  · exact ⟨rfl, rfl, rfl⟩

theorem destroyConnection_threads (s : Server k) (name : List Char) (c : ConnId)
    (sc : ServerConn k) (us : List UserCall) :
    SameThreads s (s.destroyConnection name c sc us) := by
  unfold destroyConnection
  split
  · have hop := onConn_threads (s.eraseConnection name) c (·.connectDestroyed us)
    exact ⟨hop.users, hop.calls, hop.lifetime⟩
  · exact ⟨rfl, rfl, rfl⟩

theorem queueForConn_threads (s : Server k) (f : BoundFunctor) :
    SameThreads s (s.queueForConn f) := by
  unfold queueForConn
  split
  · exact ⟨rfl, rfl, rfl⟩
  · exact ⟨rfl, rfl, rfl⟩

theorem storeDisconnecting_threads (s : Server k) (c : ConnId) :
    SameThreads s (s.storeDisconnecting c) := by
  unfold storeDisconnecting
  split
  · exact ⟨rfl, rfl, rfl⟩
  · exact ⟨rfl, rfl, rfl⟩

/-! ## Phases -/

theorem setLoop_phase_ne (s : Server k) (l : ServerLoop) {ℓ ℓ' : Fin (k + 1)} (h : ℓ' ≠ ℓ) :
    ((s.setLoop ℓ l).loops ℓ').phase = (s.loops ℓ').phase := by
  rw [setLoop_loops_ne s l h]

@[simp] theorem queueInLoop_phase (s : Server k) (ℓ : Fin (k + 1)) (f : BoundFunctor)
    (ℓ' : Fin (k + 1)) : ((s.queueInLoop ℓ f).loops ℓ').phase = (s.loops ℓ').phase := by
  by_cases hℓ : ℓ' = ℓ
  · simp [queueInLoop, hℓ]
  · simp [queueInLoop, setLoop_loops_ne s _ hℓ]

@[simp] theorem onConn_phase (s : Server k) (c : ConnId) (op : Conn → Conn) (ℓ : Fin (k + 1)) :
    ((s.onConn c op).loops ℓ).phase = (s.loops ℓ).phase := by
  cases hconn : s.conns c with
  | none => rw [onConn_of_none hconn]
  | some sc => rw [(onConn_cases hconn op).phase, store_phase]

@[simp] theorem removeConnectionInLoop_phase (s : Server k) (c : ConnId) (ℓ : Fin (k + 1)) :
    ((s.removeConnectionInLoop c).loops ℓ).phase = (s.loops ℓ).phase := by
  unfold removeConnectionInLoop
  split
  · exact queueInLoop_phase (s.eraseConnection _) _ _ _
  · rfl

theorem call_phase (s : Server k) (f : BoundFunctor) (mem : Nat → Byte)
    (a : Conn.Answers) (ℓ : Fin (k + 1)) :
    ((s.call f mem a).loops ℓ).phase = (s.loops ℓ).phase := by
  unfold call
  split <;> simp

@[simp] theorem execute_phase (s : Server k) (f : BoundFunctor) (mem : Nat → Byte)
    (a : Conn.Answers) (ℓ : Fin (k + 1)) :
    ((s.execute f mem a).loops ℓ).phase = (s.loops ℓ).phase := by
  unfold execute
  split
  · exact call_phase s f mem a ℓ
  · rfl

@[simp] theorem newConnection_phase (s : Server k) (fd : Nat) (ioLoop : Fin (k + 1))
    (wc hw : Bool) (mark : Nat) (us : List UserCall) (ℓ : Fin (k + 1)) :
    ((s.newConnection fd ioLoop wc hw mark us).loops ℓ).phase = (s.loops ℓ).phase := by
  unfold newConnection
  split
  · exact onConn_phase (s.addConnection fd ioLoop wc hw mark) _ _ _
  · exact queueInLoop_phase (s.addConnection fd ioLoop wc hw mark) _ _ _

@[simp] theorem destroyConnection_phase (s : Server k) (name : List Char) (c : ConnId)
    (sc : ServerConn k) (us : List UserCall) (ℓ : Fin (k + 1)) :
    ((s.destroyConnection name c sc us).loops ℓ).phase = (s.loops ℓ).phase := by
  unfold destroyConnection
  split
  · exact onConn_phase (s.eraseConnection name) _ _ _
  · exact queueInLoop_phase (s.eraseConnection name) _ _ _

@[simp] theorem queueForConn_phase (s : Server k) (f : BoundFunctor) (ℓ : Fin (k + 1)) :
    ((s.queueForConn f).loops ℓ).phase = (s.loops ℓ).phase := by
  unfold queueForConn
  split
  · exact queueInLoop_phase s _ _ _
  · rfl

@[simp] theorem storeDisconnecting_phase (s : Server k) (c : ConnId) (ℓ : Fin (k + 1)) :
    ((s.storeDisconnecting c).loops ℓ).phase = (s.loops ℓ).phase := by
  unfold storeDisconnecting
  split
  · rfl
  · rfl

theorem LoopStep.running {s s' : Server k} {ℓ : Fin (k + 1)} {e : LoopLabel}
    (h : LoopStep s ℓ e s') : (s.loops ℓ).phase ≠ .exited := by
  cases h with
  | userCall c u hpolling hexited hlives => exact hexited
  | _ => simp [*]

theorem LoopStep.phase_ne {s s' : Server k} {ℓ ℓ' : Fin (k + 1)} {e : LoopLabel}
    (h : LoopStep s ℓ e s') (hne : ℓ' ≠ ℓ) : (s'.loops ℓ').phase = (s.loops ℓ').phase := by
  cases h with
  | part c p rest active a hphase =>
    rw [onConn_phase]
    exact setLoop_phase_ne s _ hne
  | functor done rest f mem a hphase =>
    rw [execute_phase]
    exact setLoop_phase_ne s _ hne
  | userCall c u hpolling hexited hlives => rw [onConn_phase]
  | _ => exact setLoop_phase_ne s _ hne

/-- A loop thread that has left `loop()` does not come back. -/
theorem Step.exited {s s' : Server k} {e : Label k} (h : Step s e s') {ℓ : Fin (k + 1)}
    (hexited : (s.loops ℓ).phase = .exited) : (s'.loops ℓ).phase = .exited := by
  rw [← hexited]
  cases h with
  | loop ℓ' e hfree hstep =>
    refine hstep.phase_ne ?_
    rintro rfl
    exact hstep.running hexited
  | accept fd ioLoop wc hw mark us hcan => rw [newConnection_phase]
  | destroyLoop ℓ' hphase =>
    by_cases hℓ : ℓ = ℓ'
    · rw [hℓ, setLoop_loops_self]
    · rw [setLoop_loops_ne s _ hℓ]
  | destroyConn name us c sc hlife hlookup hconn => rw [destroyConnection_phase]
  | sendQueue tid c buf hcall => exact queueForConn_phase s _ _
  | shutdownStore tid c hcall => exact storeDisconnecting_phase s _ _
  | shutdownQueue tid c hcall => exact queueForConn_phase s _ _
  | _ => rfl

end Server

end EchoServer
