import EchoServer.Homes
import EchoServer.WorldInv

/-!
# What a server shows of one connection

A step of the server concerns a connection as far as its `TcpConnection`, its place
among the active channels of its loop, the functors bound to it there, and the calls
of other threads on it are concerned.

* `View`, `view`: this part of the state;
* `effects`: what the connection does in a step, as a trace;
* `runPart_closesLast`: `closeCallback_` is the last thing a callback of the channel
  does;
* `view_onConn_self`, `view_onConn_ne`: an operation changes the view of its own
  connection only, and hands its functors over in order.
-/

namespace EchoServer

open Runs Trace

/-! ## Where `closeCallback_` is called -/

namespace Conn

/-- The operation does not call `closeCallback_`. -/
abbrev Stays (c d : Conn) : Prop := Extends (· ≠ .closeCallback) c.trace d.trace

theorem Stays.not_mem {c d : Conn} (h : Stays c d) (hc : c.trace = []) :
    .closeCallback ∉ d.trace := by
  intro hmem
  rcases h.mem_or hmem with hold | hnew
  · rw [hc] at hold
    exact List.not_mem_nil hold
  · exact hnew rfl

theorem IsUser.ne_closeCallback {e : Effect} (h : IsUser e) : e ≠ .closeCallback := by
  rintro rfl
  exact h

theorem sendInLoop_stays (c : Conn) (data : List Byte) (w : WriteResult) :
    Stays c (c.sendInLoop data w) :=
  (sendInLoop_extends c data w).mono fun _ h => h.isUser.ne_closeCallback

theorem shutdownInLoop_stays (c : Conn) : Stays c c.shutdownInLoop := by
  unfold shutdownInLoop
  split
  · exact Extends.one (by simp) _
  · exact Extends.refl _ _

theorem userCall_stays (c : Conn) (u : UserCall) : Stays c (c.userCall u) :=
  (userCall_extends c u).mono fun _ => IsUser.ne_closeCallback

theorem userCalls_stays (c : Conn) (us : List UserCall) : Stays c (c.userCalls us) :=
  (userCalls_extends c us).mono fun _ => IsUser.ne_closeCallback

theorem connectionCallback_stays (c : Conn) (us : List UserCall) :
    Stays c (c.connectionCallback us) := by
  have hcall : Stays c (c.emit (.connectionCallback c.tcp.connected)) :=
    Extends.one (by simp) _
  exact hcall.trans (userCalls_stays _ us)

theorem notifyDown_stays (c : Conn) (us : List UserCall) :
    Stays c (((c.setState .kDisconnected).disableAll).connectionCallback us) := by
  have hset : Stays c ((c.setState .kDisconnected).disableAll) := Extends.one (by simp) _
  exact hset.trans (connectionCallback_stays _ us)

theorem connectEstablished_stays (c : Conn) (us : List UserCall) :
    Stays c (c.connectEstablished us) := by
  have hset : Stays c ((c.setState .kConnected).enableReading) := Extends.one (by simp) _
  exact hset.trans (connectionCallback_stays _ us)

theorem connectDestroyed_stays (c : Conn) (us : List UserCall) :
    Stays c (c.connectDestroyed us) := by
  have hremove : ∀ d : Conn, Stays d d.removeChannel := fun d => Extends.one (by simp) _
  unfold connectDestroyed connectDestroyedAfter
  split
  · exact (notifyDown_stays c us).trans (hremove _)
  · exact hremove c

theorem handleWrite_stays (c : Conn) (w : WriteResult) : Stays c (c.handleWrite w) := by
  refine (handleWrite_extends c w).mono ?_
  rintro e he rfl
  exact he

/-- A callback of the channel calls `closeCallback_` last of all, if at all. -/
theorem runPart_closesLast (c : Conn) (p : Part) (a : Answers) :
    Stays c (c.runPart p a) ∨
      ∃ d, Stays c d ∧ (c.runPart p a).trace = d.trace ++ [.closeCallback] := by
  have hclose : ∀ d us, Stays c d →
      ∃ d', Stays c d' ∧ (d.handleClose us).trace = d'.trace ++ [.closeCallback] := by
    intro d us hd
    exact ⟨_, hd.trans (notifyDown_stays d us), rfl⟩
  cases p with
  | close => exact Or.inr (hclose c _ (Extends.refl _ _))
  | error =>
    obtain ⟨e, he⟩ := handleError_eq c a.sockOpt a.onConnection
    rw [runPart, he]
    exact Or.inr (hclose _ _ (Extends.one (by simp) _))
  | read =>
    have hinput : ∀ chunk, Stays c (c.readInput chunk) := fun chunk => Extends.one (by simp) _
    rcases handleRead_cases c a with ⟨chunk, h⟩ | ⟨chunk, h⟩ | ⟨e, h⟩
    · rw [runPart, h]
      have hcall : Stays (c.readInput chunk) ((c.readInput chunk).emit .messageCallback) :=
        Extends.one (by simp) _
      exact Or.inl (((hinput chunk).trans hcall).trans (userCalls_stays _ _))
    · rw [runPart, h]
      exact Or.inr (hclose _ _ (hinput chunk))
    · rw [runPart, h]
      exact Or.inr (hclose _ _ (Extends.one (by simp) _))
  | write => exact Or.inl (handleWrite_stays c a.write)

end Conn

namespace Server

variable {k : Nat}

/-! ## Views -/

/-- The functors bound to `c`, in order. -/
def boundTo (c : ConnId) (fs : List BoundFunctor) : List Functor :=
  fs.flatMap fun f => if f.conn = c then [f.functor] else []

/-- Where the loop thread stands for connection `c`. -/
def standing (c : ConnId) : Phase → LoopPc
  | .polling => .polling
  | .handlers active => .handlers (active.lookup c)
  | .handling guard rest active =>
    if guard = c then .handling rest else .handlers (active.lookup c)
  | .functors _ _ => .functors
  | .exited => .polling

/-- Where thread `tid` stands in a call on `c`. -/
def callOf (s : Server k) (c : ConnId) (tid : Nat) : ThreadPc :=
  if (s.calls tid).conn = c then (s.calls tid).pc else .idle

structure View where
  tcp : TcpConnection
  pc : LoopPc
  batch : List Functor
  pending : List Functor
  threads : Nat → ThreadPc

def view (s : Server k) (c : ConnId) (sc : ServerConn k) : View where
  tcp := sc.tcp
  pc := standing c (s.loops sc.loop).phase
  batch := boundTo c (s.loops sc.loop).phase.rest
  pending := boundTo c (s.loops sc.loop).pending
  threads := s.callOf c

theorem boundTo_append (c : ConnId) (fs gs : List BoundFunctor) :
    boundTo c (fs ++ gs) = boundTo c fs ++ boundTo c gs := List.flatMap_append

theorem boundTo_eq_nil {c : ConnId} {fs : List BoundFunctor} (h : ∀ f ∈ fs, f.conn ≠ c) :
    boundTo c fs = [] := by
  rw [boundTo, List.flatMap_eq_nil_iff]
  intro f hf
  exact if_neg (h f hf)

/-! ## What a connection does in a step -/

/-- The trace of an operation of `c`. -/
def opTrace (s : Server k) (c : ConnId) (op : Conn → Conn) : List Effect :=
  match s.conns c with
  | some sc => (op (s.assemble sc)).trace
  | none => []

/-- The trace of a functor, on its connection. -/
def callTrace (s : Server k) (f : BoundFunctor) (mem : Nat → Byte) (a : Conn.Answers) :
    List Effect :=
  match f.functor with
  | .sendInLoop buf => s.opTrace f.conn (·.sendInLoop (readString mem buf) a.write)
  | .shutdownInLoop => s.opTrace f.conn (·.shutdownInLoop)
  | .connectEstablished => s.opTrace f.conn (·.connectEstablished a.onConnection)
  | .connectDestroyed => s.opTrace f.conn (·.connectDestroyed a.onConnection)
  | _ => []

def loopEffects (s : Server k) (c : ConnId) (ℓ : Fin (k + 1)) : LoopLabel → List Effect
  | .part a =>
    match (s.loops ℓ).phase with
    | .handling guard (p :: _) _ => if guard = c then s.opTrace c (·.runPart p a) else []
    | _ => []
  | .functor mem a =>
    match (s.loops ℓ).phase with
    | .functors _ (f :: _) => if f.conn = c ∧ s.Held c then s.callTrace f mem a else []
    | _ => []
  | .userCall d u =>
    if d = c ∧ (s.loops ℓ).phase ≠ .polling ∧ (s.loops ℓ).phase ≠ .exited ∧ s.LivesIn c ℓ then
      s.opTrace c (·.userCall u)
    else []
  | _ => []

/-- What connection `c` does in a step of the server, in order. -/
def effects (c : ConnId) (s : Server k) : Label k → List Effect
  | .loop ℓ e => if s.LoopFree ℓ then s.loopEffects c ℓ e else []
  | .accept fd ioLoop wc hw mark us =>
    if c = s.nextConnId ∧ ioLoop = baseLoop ∧ s.CanAccept fd then
      (s.addConnection fd ioLoop wc hw mark).opTrace c (·.connectEstablished us)
    else []
  | .destroyConn name us =>
    match s.lifetime, s.connections.lookup name, s.conns c with
    | .destroying, some d, some sc =>
      if d = c ∧ sc.loop = baseLoop then s.opTrace c (·.connectDestroyed us) else []
    | _, _, _ => []
  | .shutdownStore tid =>
    if s.calls tid = ⟨c, .shutdownChecked⟩ ∧ (s.conns c).isSome then [.setState .kDisconnecting]
    else []
  | _ => []

theorem opTrace_of_conns {s : Server k} {c : ConnId} {sc : ServerConn k}
    (hconn : s.conns c = some sc) (op : Conn → Conn) :
    s.opTrace c op = (op (s.assemble sc)).trace := by
  rw [opTrace, hconn]

/-! ## How views change -/

theorem view_setLoop_ne (s : Server k) {ℓ : Fin (k + 1)} (l : ServerLoop) (c : ConnId)
    {sc : ServerConn k} (h : sc.loop ≠ ℓ) : (s.setLoop ℓ l).view c sc = s.view c sc := by
  unfold view
  rw [setLoop_loops_ne s l h]
  rfl

theorem view_setLoop_self (s : Server k) (l : ServerLoop) (c : ConnId) (sc : ServerConn k) :
    (s.setLoop sc.loop l).view c sc =
      { s.view c sc with
        pc := standing c l.phase
        batch := boundTo c l.phase.rest
        pending := boundTo c l.pending } := by
  unfold view
  rw [setLoop_loops_self]
  rfl

theorem view_setPhase_self (s : Server k) (p : Phase) (c : ConnId) (sc : ServerConn k) :
    (s.setPhase sc.loop p).view c sc =
      { s.view c sc with pc := standing c p, batch := boundTo c p.rest } :=
  view_setLoop_self s _ c sc

theorem view_queueInLoop_ne (s : Server k) {ℓ : Fin (k + 1)} {f : BoundFunctor} {c : ConnId}
    {sc : ServerConn k} (h : sc.loop = ℓ → f.conn ≠ c) :
    (s.queueInLoop ℓ f).view c sc = s.view c sc := by
  by_cases hℓ : sc.loop = ℓ
  · subst hℓ
    have hf : boundTo c [f] = [] := by
      apply boundTo_eq_nil
      intro g hg
      rw [List.mem_singleton.mp hg]
      exact h rfl
    rw [queueInLoop, view_setLoop_self, boundTo_append, hf, List.append_nil]
    rfl
  · exact view_setLoop_ne s _ c hℓ

theorem view_queueInLoop_self (s : Server k) (f : Functor) (c : ConnId) (sc : ServerConn k) :
    (s.queueInLoop sc.loop ⟨c, f⟩).view c sc =
      { s.view c sc with pending := (s.view c sc).pending ++ [f] } := by
  rw [queueInLoop, view_setLoop_self, boundTo_append]
  simp [boundTo, view]

/-- The functors an operation leaves in the queue of its own loop. -/
def handed (ℓ : Fin (k + 1)) (t : List Effect) : List Functor :=
  t.flatMap fun
    | .queueInLoop f => [f]
    | .closeCallback => if ℓ = baseLoop then [.connectDestroyed] else []
    | _ => []

/-- Without `closeCallback_` they are those it queues. -/
theorem handed_of_open {ℓ : Fin (k + 1)} {t : List Effect} (h : .closeCallback ∉ t) :
    handed ℓ t = World.queuedFunctors t := by
  induction t with
  | nil => rfl
  | cons e t ih =>
    have hrest := ih fun hmem => h (List.mem_cons_of_mem _ hmem)
    rw [handed, List.flatMap_cons, ← handed, hrest]
    cases e with
    | closeCallback => exact absurd List.mem_cons_self h
    | _ => rfl

theorem view_replay {s : Server k} {c : ConnId} {sc : ServerConn k}
    (hconn : s.conns c = some sc) (e : Effect) :
    (replay c sc.loop s e).view c sc =
      { s.view c sc with pending := (s.view c sc).pending ++ handed sc.loop [e] } := by
  cases e with
  | queueInLoop f => exact view_queueInLoop_self s f c sc
  | closeCallback =>
    simp only [replay, removeConnection]
    by_cases hbase : sc.loop = baseLoop
    · rw [if_pos hbase]
      simp only [removeConnectionInLoop, hconn]
      have hqueue := view_queueInLoop_self (s.eraseConnection sc.name) .connectDestroyed c sc
      rw [hqueue]
      simp only [handed, List.flatMap_cons, List.flatMap_nil, List.append_nil, if_pos hbase]
      rfl
    · rw [if_neg hbase, view_queueInLoop_ne s fun heq => absurd heq hbase]
      simp [handed, hbase]
  | _ => simp [replay, handed]

theorem view_replays {c : ConnId} {sc : ServerConn k} (t : List Effect) {s : Server k}
    (hconn : s.conns c = some sc) :
    (t.foldl (replay c sc.loop) s).view c sc =
      { s.view c sc with pending := (s.view c sc).pending ++ handed sc.loop t } := by
  induction t generalizing s with
  | nil => simp [handed]
  | cons e t ih =>
    have hconn' : (replay c sc.loop s e).conns c = some sc := by
      have hreplay : Replayed c sc.loop [e] s (replay c sc.loop s e) :=
        replay_replayed hconn rfl List.mem_cons_self
      rw [hreplay.conns, hconn]
    have happend : handed sc.loop (e :: t) = handed sc.loop [e] ++ handed sc.loop t := by
      rw [← List.singleton_append, handed, List.flatMap_append]
      rfl
    rw [List.foldl_cons, ih hconn', view_replay hconn, happend]
    simp only [List.append_assoc]

theorem view_store (s : Server k) (c : ConnId) (sc : ServerConn k) (r : Conn) :
    (s.store c sc r).view c { sc with tcp := r.tcp } = { s.view c sc with tcp := r.tcp } := by
  have hset := view_setLoop_self (s.setConn c { sc with tcp := r.tcp })
    { s.loops sc.loop with poller := r.poller } c { sc with tcp := r.tcp }
  exact hset

theorem view_onConn_self {s : Server k} {c : ConnId} {sc : ServerConn k}
    (hconn : s.conns c = some sc) (op : Conn → Conn) :
    (s.onConn c op).view c { sc with tcp := (op (s.assemble sc)).tcp } =
      { s.view c sc with
        tcp := (op (s.assemble sc)).tcp
        pending := (s.view c sc).pending ++ handed sc.loop (op (s.assemble sc)).trace } := by
  have hstored := store_conns_self s c sc (op (s.assemble sc))
  have hreplays := view_replays (op (s.assemble sc)).trace hstored
  simp only [onConn, hconn]
  refine hreplays.trans ?_
  rw [view_store]

theorem view_onConn_ne (s : Server k) {c d : ConnId} (op : Conn → Conn) (h : d ≠ c)
    (sc : ServerConn k) : (s.onConn d op).view c sc = s.view c sc := by
  cases hconn : s.conns d with
  | none => rw [onConn_of_none hconn]
  | some sd =>
    have hreplay := onConn_cases hconn op
    have hpending : boundTo c ((s.onConn d op).loops sc.loop).pending =
        boundTo c (s.loops sc.loop).pending := by
      have hnew := (hreplay.pending sc.loop).flatMap_eq
        (f := fun f : BoundFunctor => if f.conn = c then [f.functor] else []) ?_
      · rw [store_pending] at hnew
        exact hnew
      · intro f hf
        refine if_neg ?_
        rw [hf.1]
        exact h
    have hcalls : (s.onConn d op).callOf c = s.callOf c := by
      funext tid
      rw [callOf, hreplay.calls]
      rfl
    unfold view
    rw [onConn_phase, hpending, hcalls]

theorem view_removeConnectionInLoop_ne (s : Server k) {c d : ConnId} (h : d ≠ c)
    (sc : ServerConn k) : (s.removeConnectionInLoop d).view c sc = s.view c sc := by
  unfold removeConnectionInLoop
  split
  · exact view_queueInLoop_ne (s.eraseConnection _) fun _ => h
  · rfl

theorem view_removeConnectionInLoop_self {s : Server k} {c : ConnId} {sc : ServerConn k}
    (hconn : s.conns c = some sc) :
    (s.removeConnectionInLoop c).view c sc =
      { s.view c sc with pending := (s.view c sc).pending ++ [.connectDestroyed] } := by
  simp only [removeConnectionInLoop, hconn]
  exact view_queueInLoop_self (s.eraseConnection sc.name) _ c sc

theorem view_queueForConn_ne (s : Server k) {f : BoundFunctor} {c : ConnId} (h : f.conn ≠ c)
    (sc : ServerConn k) : (s.queueForConn f).view c sc = s.view c sc := by
  unfold queueForConn
  split
  · exact view_queueInLoop_ne s fun _ => h
  · rfl

theorem view_queueForConn_self {s : Server k} {c : ConnId} {sc : ServerConn k}
    (hconn : s.conns c = some sc) (f : Functor) :
    (s.queueForConn ⟨c, f⟩).view c sc =
      { s.view c sc with pending := (s.view c sc).pending ++ [f] } := by
  simp only [queueForConn, hconn]
  exact view_queueInLoop_self s f c sc

theorem view_setCall_self (s : Server k) (tid : Nat) (pc : ThreadPc) (c : ConnId)
    (sc : ServerConn k) :
    (s.setCall tid ⟨c, pc⟩).view c sc =
      { s.view c sc with threads := Function.update (s.view c sc).threads tid pc } := by
  have hcalls : (s.setCall tid ⟨c, pc⟩).callOf c = Function.update (s.callOf c) tid pc := by
    funext tid'
    by_cases heq : tid' = tid
    · subst heq
      simp [callOf, setCall]
    · simp [callOf, setCall, Function.update_of_ne heq]
  unfold view
  rw [hcalls]
  rfl

theorem view_setCall_ne (s : Server k) {tid : Nat} {call : Call} {c : ConnId}
    (h : call.conn ≠ c) (hidle : s.callOf c tid = .idle) (sc : ServerConn k) :
    (s.setCall tid call).view c sc = s.view c sc := by
  have hcalls : (s.setCall tid call).callOf c = s.callOf c := by
    funext tid'
    by_cases heq : tid' = tid
    · subst heq
      rw [hidle]
      simp [callOf, setCall, h]
    · simp [callOf, setCall, Function.update_of_ne heq]
  unfold view
  rw [hcalls]
  rfl

end Server

end EchoServer
