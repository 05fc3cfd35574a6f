import Mathlib.Algebra.BigOperators.Fin
import EchoServer.Lib.Potential
import EchoServer.LoopRefinement

/-!
# The functors a server comes to

A functor may queue others: `sendInLoop` a notification, `removeConnectionInLoop`
the `connectDestroyed`, the callbacks of the user what they send and shut down. No
functor queues itself again, so the loops come to rest unless something happens
outside of them.

* `Functor.weight`, `Conn.cost`: what a functor comes to, and what an operation of a
  connection has queued;
* `Server.work`, `stimulus`: what the queues come to, and what a step adds from outside;
* `work_bounded`: the functors executed in any run are paid for by the two.
-/

namespace EchoServer

open Runs

/-! ## What a functor comes to -/

/-- The functor itself, and those its body queues apart from the calls of the user. -/
def Functor.weight : Functor → Nat
  -- a notification
  | .sendInLoop _ => 2
  -- `connectDestroyed`
  | .removeConnectionInLoop => 2
  | _ => 1

/-- What the replay of an effect queues. -/
def Effect.weight : Effect → Nat
  | .queueInLoop f => f.weight
  -- `removeConnectionInLoop`, or at once `connectDestroyed`
  | .closeCallback => 2
  | _ => 0

namespace Conn

/-- What the operations so far have queued. -/
def cost (c : Conn) : Nat := (c.trace.map Effect.weight).sum

@[simp] theorem emit_cost (c : Conn) (e : Effect) : (c.emit e).cost = c.cost + e.weight := by
  simp [cost, emit]

@[simp] theorem queueInLoop_cost (c : Conn) (f : Functor) :
    (c.queueInLoop f).cost = c.cost + f.weight :=
  c.emit_cost (.queueInLoop f)

@[simp] theorem setEvents_cost (c : Conn) (events : EventMask) :
    (c.setEvents events).cost = c.cost := rfl

@[simp] theorem disableAll_cost (c : Conn) : c.disableAll.cost = c.cost := rfl

@[simp] theorem enableReading_cost (c : Conn) : c.enableReading.cost = c.cost := rfl

@[simp] theorem setState_cost (c : Conn) (s : StateE) : (c.setState s).cost = c.cost :=
  c.emit_cost (.setState s)

@[simp] theorem removeChannel_cost (c : Conn) : c.removeChannel.cost = c.cost :=
  c.emit_cost .removeChannel

@[simp] theorem setOutputBuffer_cost (c : Conn) (b : Buffer) :
    (c.setOutputBuffer b).cost = c.cost := rfl

@[simp] theorem setInputBuffer_cost (c : Conn) (b : Buffer) : (c.setInputBuffer b).cost = c.cost :=
  rfl

@[simp] theorem ensureWriting_cost (c : Conn) : c.ensureWriting.cost = c.cost := by
  unfold ensureWriting
  split <;> rfl

theorem checkHighWater_cost_le (c : Conn) (n : Nat) : (c.checkHighWater n).cost ≤ c.cost + 1 := by
  unfold checkHighWater
  split
  · simp [Functor.weight]
  · omega

theorem bufferOutput_cost_le (c : Conn) (rest : List Byte) :
    (c.bufferOutput rest).cost ≤ c.cost + 1 := by
  simpa [bufferOutput] using c.checkHighWater_cost_le rest.length

theorem tryDirectWrite_cost_le (c : Conn) (data : List Byte) (w : WriteResult) :
    (c.tryDirectWrite data w).cost ≤ c.cost + 1 := by
  unfold tryDirectWrite directWrite
  split
  · split
    · split
      · simp [Effect.weight, Functor.weight]
      · simp [Effect.weight]
    · simp [Effect.weight]
  · omega

/-- The write-complete notification is queued only when nothing is left to buffer. -/
theorem tryDirectWrite_cost_of_rest {c : Conn} {data : List Byte} {w : WriteResult}
    (h : c.leavesRest data w = true) : (c.tryDirectWrite data w).cost = c.cost := by
  have hrest : 0 < data.length - c.nwrote data w := by
    simp [leavesRest] at h
    omega
  unfold tryDirectWrite
  split
  · rename_i hdirect
    rw [nwrote, if_pos hdirect] at hrest
    cases w with
    | ok n =>
      have hleft : ¬ (data.length - (WriteResult.ok n).count data.length = 0 ∧
          c.tcp.writeCompleteCallback = true) := by
        rintro ⟨hnone, _⟩
        omega
      rw [directWrite, if_neg hleft]
      exact c.emit_cost _
    | err e => exact c.emit_cost _
  · rfl

theorem sendInLoop_cost_le (c : Conn) (data : List Byte) (w : WriteResult) :
    (c.sendInLoop data w).cost ≤ c.cost + 1 := by
  unfold sendInLoop
  split
  · rename_i hrest
    have hbuffered := (c.tryDirectWrite data w).bufferOutput_cost_le
      (data.drop (c.nwrote data w))
    rw [tryDirectWrite_cost_of_rest hrest] at hbuffered
    exact hbuffered
  · exact c.tryDirectWrite_cost_le data w

theorem shutdownInLoop_cost (c : Conn) : c.shutdownInLoop.cost = c.cost := by
  unfold shutdownInLoop
  split
  · simp [Effect.weight]
  · rfl

theorem userCall_cost_le (c : Conn) (u : UserCall) : (c.userCall u).cost ≤ c.cost + 1 := by
  cases u with
  | send data w =>
    show (c.send data w).cost ≤ _
    unfold send
    split
    · exact c.sendInLoop_cost_le data w
    · omega
  | shutdown =>
    show c.shutdown.cost ≤ _
    unfold shutdown
    split
    · simp [Functor.weight]
    · omega
  | retrieve len => simp [userCall, Effect.weight]
  | retrieveAll => simp [userCall, Effect.weight]
  | retrieveAllAsString => simp [userCall, Effect.weight]

theorem userCalls_cost_le (c : Conn) (calls : List UserCall) :
    (c.userCalls calls).cost ≤ c.cost + calls.length := by
  induction calls generalizing c with
  | nil => exact Nat.le_refl _
  | cons u calls ih =>
    have hcall := c.userCall_cost_le u
    have hrest := ih (c.userCall u)
    show ((c.userCall u).userCalls calls).cost ≤ _
    rw [List.length_cons]
    omega

theorem connectionCallback_cost_le (c : Conn) (calls : List UserCall) :
    (c.connectionCallback calls).cost ≤ c.cost + calls.length := by
  simpa [connectionCallback, Effect.weight] using
    (c.emit (.connectionCallback c.tcp.connected)).userCalls_cost_le calls

theorem messageCallback_cost_le (c : Conn) (calls : List UserCall) :
    (c.messageCallback calls).cost ≤ c.cost + calls.length := by
  simpa [messageCallback, Effect.weight] using
    (c.emit .messageCallback).userCalls_cost_le calls

theorem handleClose_cost_le (c : Conn) (us : List UserCall) :
    (c.handleClose us).cost ≤ c.cost + (us.length + 2) := by
  have hcalls := (c.setState .kDisconnected).disableAll.connectionCallback_cost_le us
  rw [disableAll_cost, setState_cost] at hcalls
  rw [handleClose, emit_cost]
  simp only [Effect.weight]
  omega

theorem handleError_cost_le (c : Conn) (opt : SockOptResult) (us : List UserCall) :
    (c.handleError opt us).cost ≤ c.cost + (us.length + 2) := by
  cases opt with
  | ok e => simpa [handleError, Effect.weight] using (c.emit (.soError e)).handleClose_cost_le us
  | err e => simpa [handleError, Effect.weight] using (c.emit (.soError e)).handleClose_cost_le us

theorem readInput_cost (c : Conn) (chunk : List Byte) : (c.readInput chunk).cost = c.cost := by
  simp [readInput, Effect.weight]

theorem handleRead_cost_le (c : Conn) (a : Answers) :
    (c.handleRead a).cost ≤ c.cost + max a.onMessage.length (a.onConnection.length + 2) := by
  unfold handleRead
  split
  · rename_i chunk hread
    split
    · have hmessage := (c.readInput chunk).messageCallback_cost_le a.onMessage
      rw [readInput_cost] at hmessage
      omega
    · have hclose := (c.readInput chunk).handleClose_cost_le a.onConnection
      rw [readInput_cost] at hclose
      omega
  · have herror := c.handleError_cost_le a.sockOpt a.onConnection
    omega

theorem afterWrite_cost_le (c : Conn) (n : Nat) : (c.afterWrite n).cost ≤ c.cost + 1 := by
  have hqueue : ∀ c : Conn, c.queueWriteComplete.cost ≤ c.cost + 1 := by
    intro c
    unfold queueWriteComplete
    split
    · simp [Functor.weight]
    · omega
  have hshutdown : ∀ c : Conn, c.shutdownIfDisconnecting.cost = c.cost := by
    intro c
    unfold shutdownIfDisconnecting
    split
    · exact c.shutdownInLoop_cost
    · rfl
  unfold afterWrite
  split
  · rw [afterDrain, hshutdown]
    exact hqueue _
  · exact Nat.le_succ _

theorem handleWrite_cost_le (c : Conn) (w : WriteResult) : (c.handleWrite w).cost ≤ c.cost + 1 := by
  unfold handleWrite
  split
  · split
    · simpa [Effect.weight] using
        (c.emit (.write c.offered w)).afterWrite_cost_le (c.writeCount w).toNat
    · simp [Effect.weight]
  · omega

theorem runPart_cost_le (c : Conn) (p : Part) (a : Answers) :
    (c.runPart p a).cost ≤ c.cost + max a.onMessage.length (a.onConnection.length + 2) := by
  cases p with
  | close =>
    have hclose := c.handleClose_cost_le a.onConnection
    show (c.handleClose a.onConnection).cost ≤ _
    omega
  | error =>
    have herror := c.handleError_cost_le a.sockOpt a.onConnection
    show (c.handleError a.sockOpt a.onConnection).cost ≤ _
    omega
  | read => exact c.handleRead_cost_le a
  | write =>
    have hwrite := c.handleWrite_cost_le a.write
    show (c.handleWrite a.write).cost ≤ _
    omega

theorem connectEstablished_cost_le (c : Conn) (us : List UserCall) :
    (c.connectEstablished us).cost ≤ c.cost + us.length := by
  simpa [connectEstablished] using
    ((c.setState .kConnected).enableReading).connectionCallback_cost_le us

theorem connectDestroyed_cost_le (c : Conn) (us : List UserCall) :
    (c.connectDestroyed us).cost ≤ c.cost + us.length := by
  unfold connectDestroyed connectDestroyedAfter
  split
  · simpa using ((c.setState .kDisconnected).disableAll).connectionCallback_cost_le us
  · simp

end Conn

/-! ## What the queues come to -/

/-- What functors come to when they are executed. -/
def totalWeight (fs : List BoundFunctor) : Nat := (fs.map fun f => f.functor.weight).sum

@[simp] theorem totalWeight_nil : totalWeight [] = 0 := rfl

@[simp] theorem totalWeight_cons (f : BoundFunctor) (fs : List BoundFunctor) :
    totalWeight (f :: fs) = f.functor.weight + totalWeight fs := by
  simp [totalWeight]

@[simp] theorem totalWeight_append (fs gs : List BoundFunctor) :
    totalWeight (fs ++ gs) = totalWeight fs + totalWeight gs := by
  simp [totalWeight]

def ServerLoop.work (l : ServerLoop) : Nat := totalWeight l.queue

namespace Server

variable {k : Nat}

/-- What the functors of all loops come to. -/
def work (s : Server k) : Nat := ∑ ℓ, (s.loops ℓ).work

/-- A loop is replaced. -/
theorem setLoop_work (s : Server k) (ℓ : Fin (k + 1)) (l : ServerLoop) :
    (s.setLoop ℓ l).work + (s.loops ℓ).work = s.work + l.work := by
  have hafter : (s.setLoop ℓ l).work =
      ∑ ℓ', Function.update (fun ℓ' => (s.loops ℓ').work) ℓ l.work ℓ' := by
    refine Finset.sum_congr rfl ?_
    intro ℓ' _
    by_cases hℓ : ℓ' = ℓ
    · simp [hℓ]
    · simp [setLoop_loops_ne s _ hℓ, hℓ]
  have hbefore := Finset.sum_sdiff (f := fun ℓ' => (s.loops ℓ').work)
    (Finset.subset_univ {ℓ})
  rw [Finset.sum_singleton] at hbefore
  rw [hafter, Finset.sum_update_of_mem (Finset.mem_univ ℓ), work, ← hbefore]
  omega

theorem setPhase_work (s : Server k) (ℓ : Fin (k + 1)) (p : Phase) :
    (s.setPhase ℓ p).work + totalWeight (s.loops ℓ).phase.rest =
      s.work + totalWeight p.rest := by
  have hloop : (s.setPhase ℓ p).work + (s.loops ℓ).work =
      s.work + totalWeight (p.rest ++ (s.loops ℓ).pending) := s.setLoop_work ℓ _
  rw [ServerLoop.work, ServerLoop.queue, totalWeight_append, totalWeight_append] at hloop
  omega

theorem queueInLoop_work (s : Server k) (ℓ : Fin (k + 1)) (f : BoundFunctor) :
    (s.queueInLoop ℓ f).work = s.work + f.functor.weight := by
  have hloop : (s.queueInLoop ℓ f).work + (s.loops ℓ).work =
      s.work + totalWeight ((s.loops ℓ).phase.rest ++ ((s.loops ℓ).pending ++ [f])) :=
    s.setLoop_work ℓ _
  simp only [ServerLoop.work, ServerLoop.queue, totalWeight_append, totalWeight_cons,
    totalWeight_nil] at hloop
  omega

theorem store_work (s : Server k) (c : ConnId) (sc : ServerConn k) (r : Conn) :
    (s.store c sc r).work = s.work := by
  refine Finset.sum_congr rfl ?_
  intro ℓ _
  rw [ServerLoop.work, ServerLoop.work, ServerLoop.queue, ServerLoop.queue, store_phase,
    store_pending]

theorem removeConnectionInLoop_work_le (s : Server k) (c : ConnId) :
    (s.removeConnectionInLoop c).work ≤ s.work + 1 := by
  unfold removeConnectionInLoop
  split
  · exact (queueInLoop_work (s.eraseConnection _) _ _).le
  · exact Nat.le_succ _

theorem replay_work_le (c : ConnId) (ℓ : Fin (k + 1)) (s : Server k) (e : Effect) :
    (replay c ℓ s e).work ≤ s.work + e.weight := by
  cases e with
  | queueInLoop f => exact (s.queueInLoop_work ℓ ⟨c, f⟩).le
  | closeCallback =>
    simp only [replay, removeConnection]
    split
    · exact (s.removeConnectionInLoop_work_le c).trans (Nat.le_succ _)
    · exact (s.queueInLoop_work baseLoop ⟨c, .removeConnectionInLoop⟩).le
  | _ => exact Nat.le_add_right _ _

theorem replays_work_le (c : ConnId) (ℓ : Fin (k + 1)) (s : Server k) (trace : List Effect) :
    (trace.foldl (replay c ℓ) s).work ≤ s.work + (trace.map Effect.weight).sum := by
  induction trace generalizing s with
  | nil => exact Nat.le_refl _
  | cons e trace ih =>
    have hfirst := replay_work_le c ℓ s e
    have hrest := ih (replay c ℓ s e)
    rw [List.foldl_cons, List.map_cons, List.sum_cons]
    omega

/-- An operation of a connection adds to the queues what it costs. -/
theorem onConn_work_le (s : Server k) (c : ConnId) {op : Conn → Conn} {n : Nat}
    (hop : ∀ conn, (op conn).cost ≤ conn.cost + n) : (s.onConn c op).work ≤ s.work + n := by
  unfold onConn
  split
  · rename_i sc hconn
    have hreplayed := replays_work_le c sc.loop (s.store c sc (op (s.assemble sc)))
      (op (s.assemble sc)).trace
    have hcost : ((op (s.assemble sc)).trace.map Effect.weight).sum ≤ 0 + n := hop (s.assemble sc)
    rw [store_work] at hreplayed
    omega
  · exact Nat.le_add_right _ _

/-! ## What a step adds -/

/-- What a step brings in from outside: an event of the poller, the calls user code makes,
a connection accepted or destroyed. -/
def stimulus : Label k → Nat
  | .loop _ (.part a) => max a.onMessage.length (a.onConnection.length + 2)
  | .loop _ (.functor _ a) => a.onConnection.length
  | .loop _ (.userCall _ _) => 1
  | .accept _ _ _ _ _ us => us.length + 1
  | .destroyConn _ us => us.length + 1
  | .sendQueue _ => 2
  | .shutdownQueue _ => 1
  | _ => 0

/-- The functor executed in the step, whichever loop does. -/
def served (s : Server k) : Label k → List BoundFunctor
  | .loop ℓ e => executes ℓ s (.loop ℓ e)
  | _ => []

/-- A functor has been paid for when it was queued. -/
theorem execute_work_le (s : Server k) (f : BoundFunctor) (mem : Nat → Byte) (a : Conn.Answers) :
    (s.execute f mem a).work + 1 ≤ s.work + f.functor.weight + a.onConnection.length := by
  rcases f with ⟨c, functor⟩
  unfold execute call
  split
  · cases functor with
    | sendInLoop buf =>
      have hsend := s.onConn_work_le c
        (fun conn => conn.sendInLoop_cost_le (readString mem buf) a.write)
      simp only [Functor.weight]
      omega
    | shutdownInLoop =>
      have hshutdown : (s.onConn c (·.shutdownInLoop)).work ≤ s.work + 0 :=
        s.onConn_work_le c (fun conn => conn.shutdownInLoop_cost.le)
      simp only [Functor.weight]
      omega
    | connectEstablished =>
      have hestablished := s.onConn_work_le c
        (fun conn => conn.connectEstablished_cost_le a.onConnection)
      simp only [Functor.weight]
      omega
    | connectDestroyed =>
      have hdestroyed := s.onConn_work_le c
        (fun conn => conn.connectDestroyed_cost_le a.onConnection)
      simp only [Functor.weight]
      omega
    | removeConnectionInLoop =>
      have hremoved := s.removeConnectionInLoop_work_le c
      simp only [Functor.weight]
      omega
    | writeCompleteCallback | writeCompleteMember | highWaterMarkCallback =>
      simp only [Functor.weight]
      omega
  · cases functor <;> simp only [Functor.weight] <;> omega

theorem LoopStep.work_le {s s' : Server k} {ℓ : Fin (k + 1)} {e : LoopLabel}
    (h : LoopStep s ℓ e s') (hfree : s.LoopFree ℓ) :
    (executes ℓ s (.loop ℓ e)).length + s'.work ≤ s.work + stimulus (.loop ℓ e) := by
  cases h with
  | poll ready hphase =>
    have hwork := s.setPhase_work ℓ (.handlers (activeChannels (s.loops ℓ).poller ready))
    simp only [Phase.rest, totalWeight_nil] at hwork
    simp only [executes, List.length_nil]
    omega
  | handle c revents active hphase hheld =>
    have hwork := s.setPhase_work ℓ (.handling c (Conn.dispatch revents) active)
    simp only [Phase.rest, totalWeight_nil] at hwork
    simp only [executes, List.length_nil]
    omega
  | handleDead c revents active hphase hdead =>
    have hwork := s.setPhase_work ℓ (.handlers active)
    simp only [Phase.rest, totalWeight_nil] at hwork
    simp only [executes, List.length_nil]
    omega
  | part c p rest active a hphase =>
    have hwork := s.setPhase_work ℓ (.handling c rest active)
    have hpart := (s.setPhase ℓ (.handling c rest active)).onConn_work_le c
      (fun conn => conn.runPart_cost_le p a)
    simp only [Phase.rest, totalWeight_nil] at hwork
    simp only [executes, List.length_nil, stimulus]
    omega
  | handled c active hphase =>
    have hwork := s.setPhase_work ℓ (.handlers active)
    simp only [Phase.rest, totalWeight_nil] at hwork
    simp only [executes, List.length_nil]
    omega
  | startFunctors hphase =>
    -- the swap
    have hwork := s.setLoop_work ℓ
      { s.loops ℓ with pending := [], phase := .functors [] (s.loops ℓ).pending }
    simp only [ServerLoop.work, ServerLoop.queue, hphase, Phase.rest, List.append_nil,
      List.nil_append] at hwork
    simp only [executes, List.length_nil]
    omega
  | functor done rest f mem a hphase =>
    have hexecutes : executes ℓ s (.loop ℓ (.functor mem a)) = [f] := by
      rw [executes, if_pos ⟨rfl, hfree⟩, hphase]
      rfl
    have hwork := s.setPhase_work ℓ (.functors (done ++ [f]) rest)
    have hexecute := (s.setPhase ℓ (.functors (done ++ [f]) rest)).execute_work_le f mem a
    simp only [hphase, Phase.rest, totalWeight_cons] at hwork
    rw [hexecutes]
    simp only [List.length_singleton, stimulus]
    omega
  | endFunctors done hphase =>
    have hwork := s.setPhase_work ℓ .polling
    simp only [Phase.rest, totalWeight_nil] at hwork
    simp only [executes, List.length_nil]
    omega
  | userCall c u hpolling hexited hlives =>
    have hcall := s.onConn_work_le c (fun conn => conn.userCall_cost_le u)
    simp only [executes, List.length_nil, stimulus]
    omega
  | exit hphase =>
    have hwork := s.setPhase_work ℓ .exited
    simp only [Phase.rest, totalWeight_nil] at hwork
    simp only [executes, List.length_nil]
    omega

theorem newConnection_work_le (s : Server k) (fd : Nat) (ioLoop : Fin (k + 1)) (wc hw : Bool)
    (mark : Nat) (us : List UserCall) :
    (s.newConnection fd ioLoop wc hw mark us).work ≤ s.work + (us.length + 1) := by
  unfold newConnection
  split
  · have hestablished := (s.addConnection fd ioLoop wc hw mark).onConn_work_le s.nextConnId
      (fun conn => conn.connectEstablished_cost_le us)
    exact hestablished.trans (Nat.add_le_add_left (Nat.le_succ _) _)
  · have hqueued := (s.addConnection fd ioLoop wc hw mark).queueInLoop_work ioLoop
      ⟨s.nextConnId, .connectEstablished⟩
    exact hqueued.le.trans (Nat.add_le_add_left (Nat.le_add_left _ _) _)

theorem destroyConnection_work_le (s : Server k) (name : List Char) (c : ConnId)
    (sc : ServerConn k) (us : List UserCall) :
    (s.destroyConnection name c sc us).work ≤ s.work + (us.length + 1) := by
  unfold destroyConnection
  split
  · have hdestroyed := (s.eraseConnection name).onConn_work_le c
      (fun conn => conn.connectDestroyed_cost_le us)
    exact hdestroyed.trans (Nat.add_le_add_left (Nat.le_succ _) _)
  · have hqueued := (s.eraseConnection name).queueInLoop_work sc.loop ⟨c, .connectDestroyed⟩
    exact hqueued.le.trans (Nat.add_le_add_left (Nat.le_add_left _ _) _)

theorem queueForConn_work_le (s : Server k) (f : BoundFunctor) :
    (s.queueForConn f).work ≤ s.work + f.functor.weight := by
  unfold queueForConn
  split
  · exact (s.queueInLoop_work _ f).le
  · exact Nat.le_add_right _ _

/-- Every step pays for the functor it executes and for those it leaves behind. -/
theorem step_pays (s : Server k) (e : Label k) : Pays step served work stimulus s e := by
  unfold Pays
  rcases step_cases s e with hstutter | hstep
  · have hserved : served s e = [] := by
      unfold served
      split
      · exact executes_of_stutter hstutter
      · rfl
    rw [hserved, hstutter]
    simp
  generalize s.step e = s' at hstep
  cases hstep with
  | loop ℓ e hfree hstep => exact hstep.work_le hfree
  | accept fd ioLoop wc hw mark us haccept =>
    simpa [served, stimulus] using s.newConnection_work_le fd ioLoop wc hw mark us
  | destroyLoop ℓ hphase =>
    have hwork := s.setLoop_work ℓ { s.loops ℓ with pending := [] }
    simp only [ServerLoop.work, ServerLoop.queue, totalWeight_append, totalWeight_nil] at hwork
    simp only [served, List.length_nil, stimulus]
    omega
  | destroyConn name us c sc hlife hlookup hconn =>
    simpa [served, stimulus] using s.destroyConnection_work_le name c sc us
  | sendQueue tid c buf hcall =>
    exact (Nat.zero_add _).trans_le (s.queueForConn_work_le ⟨c, .sendInLoop buf⟩)
  | shutdownStore tid c hcall =>
    have hstored : (s.storeDisconnecting c).work = s.work := by
      unfold storeDisconnecting
      split <;> rfl
    exact (Nat.zero_add _).trans_le hstored.le
  | shutdownQueue tid c hcall =>
    exact (Nat.zero_add _).trans_le (s.queueForConn_work_le ⟨c, .shutdownInLoop⟩)
  | dtor | dtorEnd | hold | drop | send | shutdown => exact (Nat.zero_add _).le

/-- In every run the functors executed, with what those still queued come to, are paid for
by the queues at its beginning and by what came in from outside. Where nothing comes in,
the loops execute no more than their queues come to. -/
theorem work_bounded (s : Server k) (ls : List (Label k)) :
    (collect step served s ls).length + (run step s ls).work ≤
      s.work + (ls.map stimulus).sum :=
  collect_length_le step_pays s ls

end Server

end EchoServer
