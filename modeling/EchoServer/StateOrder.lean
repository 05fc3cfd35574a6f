import EchoServer.UpDown

/-!
# The order of the states

Every operation of the loop thread stores states upwards (`Rises`): it stores
`KDisconnected`, or it has just read a smaller state and no other thread stores
a larger one. The store of a `shutdown` in another thread follows its test at
any distance, and by then the connection may be `KDisconnected`.

* `rises_step`: what one step does to the stored values;
* `state_rises_iff`: they never fall exactly in the runs where every late store
  still comes before `KDisconnected`.
-/

namespace EchoServer

open Runs Trace

/-- The position in the order of `StateE`. -/
def StateE.rank : StateE → Nat
  | .kConnecting => 0
  | .kConnected => 1
  | .kDisconnecting => 2
  | .kDisconnected => 3

theorem StateE.rank_le (s : StateE) : s.rank ≤ StateE.kDisconnected.rank := by
  cases s <;> decide

/-- The value an effect stores. -/
def Effect.stored : Effect → List StateE
  | .setState s => [s]
  | _ => []

/-- The trace grows without a store to `state_`. -/
def StoresNothing (t t' : List Effect) : Prop := Extends (fun e => e.stored = []) t t'

theorem storesNothing_one {e : Effect} (he : e.stored = []) (t : List Effect) :
    StoresNothing t (t ++ [e]) :=
  Extends.one (Q := fun e : Effect => e.stored = []) he t

namespace Conn

/-- The successive values of `state_`, from the constructor on. -/
def states (c : Conn) : List StateE := .kConnecting :: c.trace.flatMap Effect.stored

def StatesRise (c : Conn) : Prop := c.states.Pairwise fun s t => s.rank ≤ t.rank

/-- `c'` is reached from `c` by storing states that are not smaller. -/
inductive Rises (c : Conn) : Conn → Prop where
  | refl : Rises c c
  | keep {d d' : Conn} : Rises c d → StoresNothing d.trace d'.trace →
      d'.tcp.state = d.tcp.state → Rises c d'
  | store {d : Conn} (s : StateE) : Rises c d → d.tcp.state.rank ≤ s.rank →
      Rises c (d.setState s)

theorem Rises.trans {c d e : Conn} (h : Rises c d) (h' : Rises d e) : Rises c e := by
  induction h' with
  | refl => exact h
  | keep _ htrace hstate ih => exact ih.keep htrace hstate
  | store s _ hle ih => exact ih.store s hle

theorem rises_of_extends {c c' : Conn} (htrace : StoresNothing c.trace c'.trace)
    (hstate : c'.tcp.state = c.tcp.state) : Rises c c' :=
  Rises.refl.keep htrace hstate

theorem emit_rises (c : Conn) {e : Effect} (he : e.stored = []) : Rises c (c.emit e) :=
  rises_of_extends (storesNothing_one he c.trace) rfl

/-- The last value is the state, and no earlier one is larger. -/
structure Rising (c : Conn) : Prop where
  rise : c.StatesRise
  current : c.tcp.state ∈ c.states
  bounded : ∀ s ∈ c.states, s.rank ≤ c.tcp.state.rank

theorem setState_states (c : Conn) (s : StateE) : (c.setState s).states = c.states ++ [s] := by
  simp [states, Effect.stored]

theorem Rising.store {c : Conn} (h : c.Rising) {s : StateE} (hle : c.tcp.state.rank ≤ s.rank) :
    (c.setState s).Rising where
  rise := by
    rw [StatesRise, setState_states, List.pairwise_append]
    refine ⟨h.rise, List.pairwise_singleton _ _, ?_⟩
    intro t ht u hu
    rw [List.mem_singleton.mp hu]
    exact Nat.le_trans (h.bounded t ht) hle
  current := by
    rw [setState_states]
    exact List.mem_append_right _ (List.mem_singleton_self s)
  bounded t ht := by
    rw [setState_states] at ht
    rcases List.mem_append.mp ht with hold | hnew
    · exact Nat.le_trans (h.bounded t hold) hle
    · rw [List.mem_singleton.mp hnew]
      exact Nat.le_refl _

theorem Rises.rising {c d : Conn} (h : Rises c d) (hc : c.Rising) : d.Rising := by
  induction h with
  | refl => exact hc
  | keep _ htrace hstate ih =>
    have hstates := congrArg (List.cons StateE.kConnecting) (htrace.flatMap_eq fun _ he => he)
    refine ⟨?_, ?_, ?_⟩
    · rw [StatesRise, states, hstates]
      exact ih.rise
    · rw [states, hstates, hstate]
      exact ih.current
    · rw [states, hstates, hstate]
      exact ih.bounded
  | store s _ hle ih => exact ih.store hle

/-- A smaller value after a larger one. -/
theorem Rising.not_rise {c : Conn} (h : c.Rising) {s : StateE} (hlt : s.rank < c.tcp.state.rank) :
    ¬ (c.setState s).StatesRise := by
  intro hrise
  rw [StatesRise, setState_states, List.pairwise_append] at hrise
  have hle := hrise.2.2 _ h.current s (List.mem_singleton_self s)
  omega

/-! ## The operations -/

theorem IsSending.stored {e : Effect} (h : IsSending e) : e.stored = [] := by
  cases e with
  | setState => exact h.elim
  | _ => rfl

theorem IsConsumed.stored {e : Effect} (h : IsConsumed e) : e.stored = [] := by
  cases e with
  | setState => exact h.elim
  | _ => rfl

theorem IsWriting.stored {e : Effect} (h : IsWriting e) : e.stored = [] := by
  cases e with
  | setState => exact h.elim
  | _ => rfl

theorem sendInLoop_rises (c : Conn) (data : List Byte) (w : WriteResult) :
    Rises c (c.sendInLoop data w) :=
  rises_of_extends ((sendInLoop_extends c data w).mono fun _ => IsSending.stored)
    (sendInLoop_state c data w)

theorem shutdownInLoop_rises (c : Conn) : Rises c c.shutdownInLoop := by
  refine rises_of_extends ((shutdownInLoop_extends c).mono ?_) (by rw [shutdownInLoop_tcp])
  rintro e rfl
  rfl

theorem OnlyConsumes.rises {c c' : Conn} (h : OnlyConsumes c c') : Rises c c' :=
  rises_of_extends (h.trace.mono fun _ => IsConsumed.stored) h.state

theorem userCall_rises (c : Conn) (u : UserCall) : Rises c (c.userCall u) := by
  by_cases hstate : c.tcp.state = .kConnected
  · cases u with
    | send data w =>
      simp only [userCall, send, if_pos hstate]
      exact sendInLoop_rises c data w
    | shutdown =>
      simp only [userCall, shutdown, if_pos hstate]
      have hstore : Rises c (c.setState .kDisconnecting) :=
        Rises.refl.store _ (by rw [hstate]; decide)
      exact hstore.trans (emit_rises _ rfl)
    | retrieve | retrieveAll | retrieveAllAsString =>
      exact rises_of_extends (storesNothing_one rfl _) rfl
  · exact (userCall_onlyConsumes hstate u).rises

theorem userCalls_rises (c : Conn) (us : List UserCall) : Rises c (c.userCalls us) := by
  induction us generalizing c with
  | nil => exact Rises.refl
  | cons u us ih => exact (userCall_rises c u).trans (ih _)

theorem connectionCallback_rises (c : Conn) (us : List UserCall) :
    Rises c (c.connectionCallback us) :=
  (emit_rises c rfl).trans (userCalls_rises _ us)

theorem notifyDown_rises (c : Conn) (us : List UserCall) :
    Rises c (((c.setState .kDisconnected).disableAll).connectionCallback us) := by
  have hstore : Rises c (c.setState .kDisconnected) := Rises.refl.store _ (StateE.rank_le _)
  have hdisable : Rises c (c.setState .kDisconnected).disableAll :=
    hstore.keep (Extends.refl _ _) rfl
  exact hdisable.trans (connectionCallback_rises _ us)

theorem handleClose_rises (c : Conn) (us : List UserCall) : Rises c (c.handleClose us) :=
  (notifyDown_rises c us).trans (emit_rises _ rfl)

theorem handleWrite_rises (c : Conn) (w : WriteResult) : Rises c (c.handleWrite w) :=
  rises_of_extends ((handleWrite_extends c w).mono fun _ => IsWriting.stored)
    (handleWrite_state c w)

theorem runPart_rises (c : Conn) (p : Part) (a : Answers) : Rises c (c.runPart p a) := by
  cases p with
  | close => exact handleClose_rises c a.onConnection
  | error =>
    rcases handleError_eq c a.sockOpt a.onConnection with ⟨e, he⟩
    rw [runPart, he]
    exact (emit_rises c rfl).trans (handleClose_rises _ _)
  | read =>
    rw [runPart]
    have hinput : ∀ chunk, Rises c (c.readInput chunk) :=
      fun chunk => rises_of_extends (storesNothing_one rfl _) rfl
    rcases handleRead_cases c a with ⟨chunk, hread⟩ | ⟨chunk, hread⟩ | ⟨e, hread⟩
    · rw [hread]
      exact ((hinput chunk).trans (emit_rises _ rfl)).trans (userCalls_rises _ _)
    · rw [hread]
      exact (hinput chunk).trans (handleClose_rises _ _)
    · rw [hread]
      exact (emit_rises c rfl).trans (handleClose_rises _ _)
  | write => exact handleWrite_rises c a.write

theorem connectDestroyedAfter_rises (c : Conn) (saw : Bool) (us : List UserCall) :
    Rises c (c.connectDestroyedAfter saw us) := by
  cases saw with
  | true => exact (notifyDown_rises c us).keep (storesNothing_one rfl _) rfl
  | false => exact rises_of_extends (storesNothing_one rfl _) rfl

theorem connectEstablished_rises {c : Conn} (h : c.tcp.state = .kConnecting)
    (us : List UserCall) : Rises c (c.connectEstablished us) := by
  have hstore : Rises c (c.setState .kConnected) := Rises.refl.store _ (by rw [h]; decide)
  have henable : Rises c (c.setState .kConnected).enableReading :=
    hstore.keep (Extends.refl _ _) rfl
  exact henable.trans (connectionCallback_rises _ us)

end Conn

namespace World

/-! ## Until `connectEstablished` -/

/-- `newConnection` has queued `connectEstablished`. -/
def connecting (self fd : Nat) (wc hw : Bool) (mark : Nat) (mem : Nat → Byte) : World where
  conn := Conn.new self fd wc hw mark
  mem := mem
  pending := [.connectEstablished]
  batch := []
  pc := .polling
  destroying := none
  threads := fun _ => .idle

/-- `connectEstablished` has not run; a `connectDestroyed` may have. -/
structure Connecting (w : World) : Prop where
  state : w.conn.tcp.state = .kConnecting
  coherent : w.conn.Coherent
  index : w.conn.tcp.channel.index = .new
  idle : ∀ tid, w.threads tid = .idle
  calm : ¬ w.pc.Busy
  tested : w.destroying ≠ some true
  queue : ∀ f ∈ w.batch ++ w.pending, f = .connectEstablished ∨ f = .connectDestroyed
  once : (w.batch ++ w.pending).count .connectEstablished ≤ 1

/-- `connectEstablished` is not queued any more. -/
def Started (w : World) : Prop := .connectEstablished ∉ w.batch ++ w.pending

theorem connecting_connecting (self fd : Nat) (wc hw : Bool) (mark : Nat) (mem : Nat → Byte) :
    (connecting self fd wc hw mark mem).Connecting where
  state := rfl
  coherent := EPollPoller.new_coherent self fd
  index := rfl
  idle _ := rfl
  calm := id
  tested := by simp [connecting]
  queue f hf := by
    left
    simpa [connecting] using hf
  once := by simp [connecting]

/-- What leaves the connection as it is and queues nothing. -/
theorem Connecting.consume {w : World} (h : w.Connecting) {c : Conn}
    (hc : Conn.OnlyConsumes w.conn c) : (w.withConn c).Connecting := by
  have hnone : (w.withConn c).pending = w.pending := by
    rcases hc.trace with ⟨es, hes, hall⟩
    have hqueued : queuedFunctors es = [] := by
      rw [List.eq_nil_iff_forall_not_mem]
      intro f hf
      exact hall _ (mem_queuedFunctors.mp hf)
    show w.pending ++ queuedFunctors (c.trace.drop w.conn.trace.length) = w.pending
    rw [hes, List.drop_left, hqueued, List.append_nil]
  refine ⟨hc.state.trans h.state, ?_, ?_, h.idle, h.calm, h.tested, ?_, ?_⟩
  · show c.poller.Coherent c.tcp.channel
    rw [hc.poller, hc.channel]
    exact h.coherent
  · show c.tcp.channel.index = .new
    rw [hc.channel]
    exact h.index
  · rw [hnone]
    exact h.queue
  · rw [hnone]
    exact h.once

theorem Connecting.removeChannel {w : World} (h : w.Connecting) :
    { w.withConn w.conn.removeChannel with destroying := none }.Connecting := by
  have hnone : (w.withConn w.conn.removeChannel).pending = w.pending := by
    simp [withConn, Conn.removeChannel, queuedFunctors]
  refine ⟨h.state, EPollPoller.removeChannel_coherent h.coherent, ?_, h.idle, h.calm, by simp, ?_,
    ?_⟩
  · show (w.conn.poller.removeChannel w.conn.tcp.channel).2.index = .new
    rw [EPollPoller.removeChannel_channel]
  · intro f hf
    exact h.queue f (hnone ▸ hf)
  · show (w.batch ++ (w.withConn w.conn.removeChannel).pending).count .connectEstablished ≤ 1
    rw [hnone]
    exact h.once

theorem Connecting.setQueues {w : World} (h : w.Connecting) {batch pending : List Functor}
    (hsub : (batch ++ pending).Sublist (w.batch ++ w.pending)) {pc : LoopPc} (hpc : ¬ pc.Busy) :
    { w with batch := batch, pending := pending, pc := pc }.Connecting :=
  ⟨h.state, h.coherent, h.index, h.idle, hpc, h.tested, fun f hf => h.queue f (hsub.subset hf),
    Nat.le_trans (hsub.count_le _) h.once⟩

theorem Connecting.testConnected {w : World} (h : w.Connecting) : w.testConnected.Connecting :=
  ⟨h.state, h.coherent, h.index, h.idle, h.calm, by simp [World.testConnected, h.state], h.queue,
    h.once⟩

/-- The operation queues no `connectEstablished`. -/
def QueuesNone (c c' : Conn) : Prop :=
  Extends (fun e => e ≠ .queueInLoop .connectEstablished) c.trace c'.trace

theorem queuesNone_one {e : Effect} (he : e ≠ .queueInLoop .connectEstablished)
    (t : List Effect) : Extends (fun e => e ≠ .queueInLoop .connectEstablished) t (t ++ [e]) :=
  Extends.one (Q := fun e => e ≠ Effect.queueInLoop .connectEstablished) he t

theorem queuesNone_of_moves {c d : Conn} (h : Conn.Moves c d) : QueuesNone c d := by
  induction h with
  | refl => exact Extends.refl _ _
  | emit _ he ih =>
    refine ih.trans (queuesNone_one ?_ _)
    rintro rfl
    exact he
  | setEvents _ _ ih => exact ih
  | setInputBuffer _ _ ih => exact ih
  | setOutputBuffer _ _ ih => exact ih
  | disconnecting _ ih => exact ih.trans (queuesNone_one (by simp) _)
  | queueShutdown _ _ ih => exact ih.trans (queuesNone_one (by simp) _)
  | notifyDown _ ih =>
    exact (ih.trans (queuesNone_one (by simp) _)).trans (queuesNone_one (by simp) _)

theorem connectEstablished_queuesNone (c : Conn) (us : List UserCall) :
    QueuesNone c (c.connectEstablished us) := by
  have hstore : QueuesNone c (c.setState .kConnected).enableReading := queuesNone_one (by simp) _
  have hcall : QueuesNone c (((c.setState .kConnected).enableReading).emit
      (.connectionCallback true)) := hstore.trans (queuesNone_one (by simp) _)
  exact hcall.trans (queuesNone_of_moves (Conn.userCalls_moves _ us))

theorem connectDestroyedAfter_queuesNone (c : Conn) (saw : Bool) (us : List UserCall) :
    QueuesNone c (c.connectDestroyedAfter saw us) := by
  rcases Conn.connectDestroyedAfter_eq c saw us with ⟨d, hmoves, heq⟩
  rw [heq]
  exact (queuesNone_of_moves hmoves).trans (queuesNone_one (by simp) _)

theorem Started.withConn {w : World} (h : w.Started) {c : Conn} (hc : QueuesNone w.conn c) :
    (w.withConn c).Started := by
  rcases hc with ⟨es, hes, hall⟩
  intro hmem
  change Functor.connectEstablished ∈
    w.batch ++ (w.pending ++ queuedFunctors (c.trace.drop w.conn.trace.length)) at hmem
  rw [hes, List.drop_left, ← List.append_assoc] at hmem
  rcases List.mem_append.mp hmem with hold | hnew
  · exact h hold
  · exact hall _ (mem_queuedFunctors.mp hnew) rfl

theorem Started.push {w : World} (h : w.Started) {f : Functor} (hf : f ≠ .connectEstablished) :
    (w.push f).Started := by
  intro hmem
  rw [push_batch, push_pending, ← List.append_assoc] at hmem
  rcases List.mem_append.mp hmem with hold | hnew
  · exact h hold
  · exact hf (List.mem_singleton.mp hnew).symm

theorem Started.execute {w : World} (h : w.Started) {f : Functor} (hf : f ≠ .connectEstablished)
    (a : Conn.Answers) : (w.execute f a).Started := by
  cases f with
  | sendInLoop buf => exact h.withConn (queuesNone_of_moves (Conn.sendInLoop_moves _ _ _))
  | shutdownInLoop => exact h.withConn (queuesNone_of_moves (Conn.shutdownInLoop_moves _))
  | connectEstablished => exact absurd rfl hf
  | removeConnectionInLoop => exact h.push (by simp)
  | _ => exact h

theorem Started.step {w : World} (h : w.Started) (e : Label) : (w.step e).Started := by
  refine covers.elim h ?_
  intro w' hstep
  cases hstep with
  | sendQueue tid buf hpc =>
    have hpush := h.push (f := .sendInLoop buf) (by simp)
    exact hpush
  | shutdownQueue tid hpc =>
    have hpush := h.push (f := .shutdownInLoop) (by simp)
    exact hpush
  | queueDestroyed => exact h.push (by simp)
  | part p rest a hdest hpc =>
    have hpart := h.withConn (queuesNone_of_moves (Conn.runPart_moves _ p a))
    exact hpart
  | userCall u hdest hpc => exact h.withConn (queuesNone_of_moves (Conn.userCall_moves _ u))
  | swap hdest hpc =>
    intro hmem
    exact h (List.mem_append_right _ (by simpa using hmem))
  | functor f rest a hdest hpc hbatch =>
    rw [Started, hbatch, List.cons_append] at h
    have hrest : { w with batch := rest }.Started := fun hmem => h (List.mem_cons_of_mem f hmem)
    refine hrest.execute ?_ a
    rintro rfl
    exact h (List.mem_cons_self ..)
  | destroyRest saw us hdest =>
    have hdone := h.withConn (connectDestroyedAfter_queuesNone _ saw us)
    exact hdone
  | _ => exact h

/-- Executing `connectEstablished` takes the only one there is. -/
theorem Connecting.established {w : World} (h : w.Connecting) {rest : List Functor}
    (hbatch : w.batch = .connectEstablished :: rest) (a : Conn.Answers) :
    ({ w with batch := rest }.execute .connectEstablished a).Started := by
  have hrest : { w with batch := rest }.Started := by
    have honce := h.once
    rw [hbatch, List.cons_append, List.count_cons_self] at honce
    have hnone : (rest ++ w.pending).count Functor.connectEstablished = 0 := by omega
    exact List.count_eq_zero.mp hnone
  exact hrest.withConn (connectEstablished_queuesNone _ _)

theorem Connecting.step {w : World} (h : w.Connecting) (e : Label) :
    (w.step e).Connecting ∨ (w.step e).Started := by
  refine covers.elim (P := fun w' => w'.Connecting ∨ w'.Started) (Or.inl h) ?_
  intro w' hstep
  cases hstep with
  | send tid data len hpc hstate => simp [h.state] at hstate
  | shutdown tid hpc hstate => simp [h.state] at hstate
  | sendQueue tid buf hpc => simp [h.idle tid] at hpc
  | shutdownStore tid hpc => simp [h.idle tid] at hpc
  | shutdownQueue tid hpc => simp [h.idle tid] at hpc
  | store addr b =>
    exact Or.inl ⟨h.state, h.coherent, h.index, h.idle, h.calm, h.tested, h.queue, h.once⟩
  | queueDestroyed =>
    left
    refine ⟨h.state, h.coherent, h.index, h.idle, h.calm, h.tested, ?_, ?_⟩
    · intro f hf
      rw [push_batch, push_pending, ← List.append_assoc] at hf
      rcases List.mem_append.mp hf with hold | hnew
      · exact h.queue f hold
      · exact Or.inr (List.mem_singleton.mp hnew)
    · have honce := h.once
      rw [push_batch, push_pending, ← List.append_assoc, List.count_append]
      simpa using honce
  | poll revents hdest hpc hreports =>
    left
    refine h.setQueues (List.Sublist.refl _) ?_
    cases revents with
    | none => exact id
    | some m =>
      -- a channel that is `New` is not registered
      have hadded := (EPollPoller.registered_iff h.coherent).mp hreports
      simp [h.index] at hadded
  | handle revents hdest hpc => exact absurd (by simp [hpc, LoopPc.Busy]) h.calm
  | part p rest a hdest hpc => exact absurd (by simp [hpc, LoopPc.Busy]) h.calm
  | handled hdest hpc => exact Or.inl (h.setQueues (List.Sublist.refl _) id)
  | userCall u hdest hpc =>
    exact Or.inl (h.consume (Conn.userCall_onlyConsumes (by simp [h.state]) u))
  | swap hdest hpc =>
    left
    refine h.setQueues ?_ id
    rw [List.append_nil]
    exact List.sublist_append_right _ _
  | functor f rest a hdest hpc hbatch =>
    rcases h.queue f (by simp [hbatch]) with rfl | rfl
    · exact Or.inr (h.established hbatch a)
    · left
      have hrest : { w with batch := rest }.Connecting := by
        have hsub : (rest ++ w.pending).Sublist (w.batch ++ w.pending) := by
          rw [hbatch, List.cons_append]
          exact List.sublist_cons_self _ _
        exact h.setQueues hsub h.calm
      exact hrest.testConnected
  | endFunctors hdest hpc hbatch => exact Or.inl (h.setQueues (List.Sublist.refl _) id)
  | connectDestroyed hdest hpc => exact Or.inl h.testConnected
  | destroyRest saw us hdest =>
    cases saw with
    | true => exact absurd hdest h.tested
    | false => exact Or.inl h.removeChannel

/-! ## Every step -/

/-- A late store finds the connection not yet `KDisconnected`. -/
def StoresInTime (w : World) (e : Label) : Prop :=
  ∀ tid, e = .shutdownStore tid → w.threads tid = .shutdownChecked →
    w.conn.tcp.state ≠ .kDisconnected

theorem execute_rises {w : World} {f : Functor}
    (hf : f = .connectEstablished → w.conn.tcp.state = .kConnecting) (a : Conn.Answers) :
    Conn.Rises w.conn (w.execute f a).conn := by
  cases f with
  | sendInLoop buf => exact Conn.sendInLoop_rises _ _ _
  | shutdownInLoop => exact Conn.shutdownInLoop_rises _
  | connectEstablished => exact Conn.connectEstablished_rises (hf rfl) _
  | _ => exact Conn.Rises.refl

theorem rises_step {w : World} (h : w.Connecting ∨ w.Started) {e : Label}
    (hin : w.StoresInTime e) : Conn.Rises w.conn (w.step e).conn := by
  refine covers.elim (P := fun w' => Conn.Rises w.conn w'.conn) Conn.Rises.refl ?_
  intro w' hstep
  cases hstep with
  | shutdownStore tid hpc =>
    have hstate := hin tid rfl hpc
    refine Conn.Rises.refl.store _ ?_
    cases hs : w.conn.tcp.state with
    | kDisconnected => exact absurd hs hstate
    | _ => decide
  | part p rest a hdest hpc => exact Conn.runPart_rises _ p a
  | userCall u hdest hpc => exact Conn.userCall_rises _ u
  | functor f rest a hdest hpc hbatch =>
    refine execute_rises (w := { w with batch := rest }) ?_ a
    rintro rfl
    rcases h with hconnecting | hstarted
    · exact hconnecting.state
    · exact absurd (by simp [hbatch]) hstarted
  | destroyRest saw us hdest => exact Conn.connectDestroyedAfter_rises _ saw us
  | _ => exact Conn.Rises.refl

theorem late_store_falls {w : World} (h : w.conn.Rising) {e : Label} (hlate : ¬ w.StoresInTime e) :
    ¬ (w.step e).conn.StatesRise := by
  simp only [StoresInTime, not_forall, not_not] at hlate
  rcases hlate with ⟨tid, rfl, hpc, hstate⟩
  have hconn : (w.step (.shutdownStore tid)).conn = w.conn.setState .kDisconnecting := by
    simp [step, hpc]
  rw [hconn]
  exact h.not_rise (by rw [hstate]; decide)

/-- The values stored so far are known as long as they have not fallen. -/
structure Ordered (w : World) : Prop where
  phase : w.Connecting ∨ w.Started
  rising : w.conn.StatesRise → w.conn.Rising

theorem Ordered.step {w : World} (h : w.Ordered) (hrise : w.conn.StatesRise) (e : Label) :
    (w.step e).Ordered := by
  constructor
  · rcases h.phase with hconnecting | hstarted
    · exact hconnecting.step e
    · exact Or.inr (hstarted.step e)
  · intro hrise'
    by_cases hin : w.StoresInTime e
    · exact (rises_step h.phase hin).rising (h.rising hrise)
    · exact absurd hrise' (late_store_falls (h.rising hrise) hin)

end World

open World

/-- `state_` never falls, exactly in the runs in which the store of every `shutdown` comes
before that of `KDisconnected`. -/
theorem state_rises_iff (self fd : Nat) (wc hw : Bool) (mark : Nat) (mem : Nat → Byte)
    (es : List Label) :
    Always step (connecting self fd wc hw mark mem) (fun w => w.conn.StatesRise) es ↔
      EachStep step (connecting self fd wc hw mark mem) StoresInTime es := by
  have hfirst : (connecting self fd wc hw mark mem).conn.Rising := by
    refine ⟨?_, ?_, ?_⟩
    · simp [Conn.StatesRise, Conn.states, connecting, Conn.new]
    · exact List.mem_cons_self ..
    · simp [Conn.states, connecting, Conn.new, TcpConnection.new]
  apply always_iff_eachStep Ordered
  · exact ⟨Or.inl (connecting_connecting self fd wc hw mark mem), fun _ => hfirst⟩
  · intro w e h hrise
    exact h.step hrise e
  · exact hfirst.rise
  · intro w e h hrise
    constructor
    · intro hrise'
      by_contra hlate
      exact late_store_falls (h.rising hrise) hlate hrise'
    · intro hin
      exact ((rises_step h.phase hin).rising (h.rising hrise)).rise

/-- The peer closes between the test and the store of a `shutdown`. -/
def closedDuringShutdown : List Label :=
  [.loop (.poll none), .loop .swap, .loop (.functor noAnswers), .loop .endFunctors,
    .shutdown 1, .loop (.poll (some EPOLLHUP)), .loop .handle, .loop (.part noAnswers),
    .shutdownStore 1]

theorem state_falls :
    (run step (connecting 1 5 false false 64 fun _ => 0) closedDuringShutdown).conn.states =
        [.kConnecting, .kConnected, .kDisconnected, .kDisconnecting] ∧
      ¬ Always step (connecting 1 5 false false 64 fun _ => 0) (fun w => w.conn.StatesRise)
        closedDuringShutdown := by
  have hstates : (run step (connecting 1 5 false false 64 fun _ => 0)
      closedDuringShutdown).conn.states =
        [.kConnecting, .kConnected, .kDisconnected, .kDisconnecting] := by
    decide +kernel
  refine ⟨hstates, fun h => ?_⟩
  have hrise := h.last
  rw [Conn.StatesRise, hstates] at hrise
  simp [StateE.rank] at hrise

end EchoServer
