import Mathlib.Data.List.FinRange
import EchoServer.ConnName
import EchoServer.World

/-!
# TcpServer, its loops and its connections

The base loop (index 0) accepts and keeps the table `connections_`; each
connection lives in one loop, and passes from the table to functors in the
base loop and in its own loop. A `TcpConnection` exists as long as somebody
owns it: the table, a user, a functor that holds a `TcpConnectionPtr` (queued,
or in the batch that `doPendingFunctors` destroys when it returns), or the
guard of a running handler.

* `Owner`, `Owns`, `Held`: the shared owners of a connection;
* `Server.step`: one step of one thread. The conn operations are those of
  `Conn`, on the connection and the poller of its loop; what they queue, and
  the calls of `closeCallback_`, are replayed on the server;
* `Server.Step`, `step_cases`: the enabled steps.

A handler part or a functor is one step. What the code would do to a
connection that no longer exists is left out: the step does nothing then. So is
what it would do to a server that no longer exists: the functors still run as on
a live one. Of the entries of a poller only those of connections are modelled, not
those of the loop's wakeup channel and of the acceptor's channel.
-/

namespace EchoServer

open Runs

/-! ## State -/

/-- Stands for the address of a connection and of its channel. -/
abbrev ConnId := Nat

structure BoundFunctor where
  conn : ConnId
  functor : Functor
deriving DecidableEq, Repr

/-- The functor holds a `TcpConnectionPtr`; those made by `send` and `shutdown`
hold the bare `this`. -/
def Functor.owning : Functor → Bool
  | .sendInLoop _ => false
  | .shutdownInLoop => false
  | _ => true

def BoundFunctor.Owns (f : BoundFunctor) (c : ConnId) : Prop :=
  f.conn = c ∧ f.functor.owning = true

instance (f : BoundFunctor) (c : ConnId) : Decidable (f.Owns c) := by
  unfold BoundFunctor.Owns
  infer_instance

/-- Where a loop thread stands in `EventLoop::loop`. -/
inductive Phase where
  | polling
  /-- Among the handlers, with the elements of `activeChannels_` still to come. -/
  | handlers (active : List (ConnId × EventMask))
  /-- In `handleEventWithGuard` of one connection, before the callbacks `rest`. -/
  | handling (guard : ConnId) (rest : List Conn.Part) (active : List (ConnId × EventMask))
  /-- In `doPendingFunctors`; the executed functors live as long as the batch. -/
  | functors (done rest : List BoundFunctor)
  | exited
deriving DecidableEq, Repr

namespace Phase

/-- The functors `doPendingFunctors` swapped out. -/
def batch : Phase → List BoundFunctor
  | .functors done rest => done ++ rest
  | _ => []

/-- Those of them still to be executed. -/
def rest : Phase → List BoundFunctor
  | .functors _ rest => rest
  | _ => []

/-- `guard` in `handleEvent`. -/
def guarded : Phase → Option ConnId
  | .handling guard _ _ => some guard
  | _ => none

/-- The elements of `activeChannels_` whose handler has not been called. -/
def active : Phase → List (ConnId × EventMask)
  | .handlers active => active
  | .handling _ _ active => active
  | _ => []

def inHandlers : Phase → Bool
  | .handlers _ => true
  | .handling _ _ _ => true
  | _ => false

end Phase

structure ServerLoop where
  poller : EPollPoller
  pending : List BoundFunctor
  phase : Phase

/-- The functors the loop still has to execute, in order. -/
def ServerLoop.queue (l : ServerLoop) : List BoundFunctor := l.phase.rest ++ l.pending

/-- A connection of a server with `k` loops besides the base loop. -/
structure ServerConn (k : Nat) where
  loop : Fin (k + 1)
  name : List Char
  tcp : TcpConnection

/-- How far `~TcpServer` has come. -/
inductive Lifetime where
  | alive
  | destroying
  | destroyed
deriving DecidableEq, Repr

/-- A call of `send` or `shutdown` in a thread that is not the loop's. -/
structure Call where
  conn : ConnId
  pc : ThreadPc
deriving DecidableEq, Repr

structure Server (k : Nat) where
  name : List Char
  listenAddr : InetAddress
  loops : Fin (k + 1) → ServerLoop
  conns : ConnId → Option (ServerConn k)
  nextConnId : Nat
  connections : List (List Char × ConnId)
  lifetime : Lifetime
  /-- The `TcpConnectionPtr`s of user code, by the thread that keeps them. -/
  users : List (Nat × ConnId)
  calls : Nat → Call

namespace Server

variable {k : Nat}

/-- `loop_`, where the acceptor lives. -/
abbrev baseLoop : Fin (k + 1) := 0

/-- A server before its first connection, with its loops about to poll. -/
def init (k : Nat) (name : List Char) (listenAddr : InetAddress) : Server k where
  name := name
  listenAddr := listenAddr
  loops := fun _ => ⟨EPollPoller.new, [], .polling⟩
  conns := fun _ => none
  nextConnId := 1
  connections := []
  lifetime := .alive
  users := []
  calls := fun _ => ⟨0, .idle⟩

/-- The name `newConnection` gives to the connection with number `id`. -/
def connName (s : Server k) (id : Nat) : List Char :=
  EchoServer.connName s.name s.listenAddr.toIpPort id

/-! ## Owners -/

inductive Owner (k : Nat) where
  | map
  | user (tid : Nat)
  | pending (ℓ : Fin (k + 1))
  | batch (ℓ : Fin (k + 1))
  | guard (ℓ : Fin (k + 1))
deriving DecidableEq, Repr

def Owns (s : Server k) (c : ConnId) : Owner k → Prop
  | .map => ∃ p ∈ s.connections, p.2 = c
  | .user tid => (tid, c) ∈ s.users
  | .pending ℓ => ∃ f ∈ (s.loops ℓ).pending, f.Owns c
  | .batch ℓ => ∃ f ∈ (s.loops ℓ).phase.batch, f.Owns c
  | .guard ℓ => (s.loops ℓ).phase.guarded = some c

instance (s : Server k) (c : ConnId) (o : Owner k) : Decidable (s.Owns c o) := by
  cases o <;> unfold Owns <;> infer_instance

/-- The connection exists: it has a shared owner. -/
def Held (s : Server k) (c : ConnId) : Prop := ∃ o, s.Owns c o

/-- All that can own a connection. -/
def owners (s : Server k) : List (Owner k) :=
  .map :: s.users.map (fun u => .user u.1) ++
    (List.finRange (k + 1)).flatMap fun ℓ => [.pending ℓ, .batch ℓ, .guard ℓ]

theorem mem_owners {s : Server k} {c : ConnId} {o : Owner k} (h : s.Owns c o) : o ∈ s.owners := by
  cases o with
  | map => simp [owners]
  | user tid =>
    have hmem : ∃ c, (tid, c) ∈ s.users := ⟨c, h⟩
    simpa [owners] using hmem
  | pending ℓ => simp [owners]
  | batch ℓ => simp [owners]
  | guard ℓ => simp [owners]

instance (s : Server k) (c : ConnId) : Decidable (s.Held c) :=
  decidable_of_iff (∃ o ∈ s.owners, s.Owns c o)
    ⟨fun ⟨o, _, h⟩ => ⟨o, h⟩, fun ⟨o, h⟩ => ⟨o, mem_owners h, h⟩⟩

/-- Sockets are closed when their connection is destroyed: `fd` is open as long
as a connection that has it exists. -/
def FdOpen (s : Server k) (fd : Nat) : Prop :=
  ∃ c < s.nextConnId, (∃ sc ∈ s.conns c, sc.tcp.channel.fd = fd) ∧ s.Held c

instance (s : Server k) (fd : Nat) : Decidable (s.FdOpen fd) := by
  unfold FdOpen
  infer_instance

/-! ## Loops and table -/

def setLoop (s : Server k) (ℓ : Fin (k + 1)) (l : ServerLoop) : Server k :=
  { s with loops := Function.update s.loops ℓ l }

def setPhase (s : Server k) (ℓ : Fin (k + 1)) (p : Phase) : Server k :=
  s.setLoop ℓ { s.loops ℓ with phase := p }

def queueInLoop (s : Server k) (ℓ : Fin (k + 1)) (f : BoundFunctor) : Server k :=
  s.setLoop ℓ { s.loops ℓ with pending := (s.loops ℓ).pending ++ [f] }

/-- `connections_.erase(name)`. -/
def eraseConnection (s : Server k) (name : List Char) : Server k :=
  { s with connections := s.connections.filter fun p => p.1 ≠ name }

/-- `connections_[name] = conn`. -/
def insertConnection (s : Server k) (name : List Char) (c : ConnId) : Server k :=
  { s with connections := (name, c) :: s.connections.filter fun p => p.1 ≠ name }

def removeConnectionInLoop (s : Server k) (c : ConnId) : Server k :=
  match s.conns c with
  | some sc => (s.eraseConnection sc.name).queueInLoop sc.loop ⟨c, .connectDestroyed⟩
  | none => s

/-- `removeConnection`, called by a handler in the loop of the connection. -/
def removeConnection (s : Server k) (c : ConnId) (ℓ : Fin (k + 1)) : Server k :=
  if ℓ = baseLoop then s.removeConnectionInLoop c
  else s.queueInLoop baseLoop ⟨c, .removeConnectionInLoop⟩

/-! ## Operations of one connection -/

/-- What an effect of connection `c` of loop `ℓ` does to the server. -/
def replay (c : ConnId) (ℓ : Fin (k + 1)) (s : Server k) : Effect → Server k
  | .queueInLoop f => s.queueInLoop ℓ ⟨c, f⟩
  | .closeCallback => s.removeConnection c ℓ
  | _ => s

/-- The connection with the poller of its loop. -/
def assemble (s : Server k) (sc : ServerConn k) : Conn :=
  ⟨sc.tcp, (s.loops sc.loop).poller, []⟩

def setConn (s : Server k) (c : ConnId) (sc : ServerConn k) : Server k :=
  { s with conns := Function.update s.conns c (some sc) }

/-- Put the outcome of an operation back. -/
def store (s : Server k) (c : ConnId) (sc : ServerConn k) (r : Conn) : Server k :=
  (s.setConn c { sc with tcp := r.tcp }).setLoop sc.loop
    { s.loops sc.loop with poller := r.poller }

/-- The connection's loop thread runs the operation `op` of `c`. -/
def onConn (s : Server k) (c : ConnId) (op : Conn → Conn) : Server k :=
  match s.conns c with
  | some sc =>
    (op (s.assemble sc)).trace.foldl (replay c sc.loop) (s.store c sc (op (s.assemble sc)))
  | none => s

/-- `newConnection`, up to the entry in the table. -/
def addConnection (s : Server k) (fd : Nat) (ioLoop : Fin (k + 1)) (wc hw : Bool) (mark : Nat) :
    Server k :=
  ({ s with nextConnId := s.nextConnId + 1 }.setConn s.nextConnId
    ⟨ioLoop, s.connName s.nextConnId, TcpConnection.new s.nextConnId fd wc hw mark⟩).insertConnection
      (s.connName s.nextConnId) s.nextConnId

/-- `newConnection`: `runInLoop` runs `connectEstablished` at once where the
connection lives in the base loop. -/
def newConnection (s : Server k) (fd : Nat) (ioLoop : Fin (k + 1)) (wc hw : Bool) (mark : Nat)
    (us : List UserCall) : Server k :=
  if ioLoop = baseLoop then
    (s.addConnection fd ioLoop wc hw mark).onConn s.nextConnId (·.connectEstablished us)
  else
    (s.addConnection fd ioLoop wc hw mark).queueInLoop ioLoop ⟨s.nextConnId, .connectEstablished⟩

/-- One turn of the loop in `~TcpServer`, for the entry `(name, c)`. -/
def destroyConnection (s : Server k) (name : List Char) (c : ConnId) (sc : ServerConn k)
    (us : List UserCall) : Server k :=
  if sc.loop = baseLoop then (s.eraseConnection name).onConn c (·.connectDestroyed us)
  else (s.eraseConnection name).queueInLoop sc.loop ⟨c, .connectDestroyed⟩

/-- What `sendInLoop` reads through the pointer it was given. -/
def readString (mem : Nat → Byte) (buf : SentString) : List Byte :=
  (List.range buf.len).map fun i => mem (buf.data + i)

/-- The body of a functor, on a connection that exists. -/
def call (s : Server k) (f : BoundFunctor) (mem : Nat → Byte) (a : Conn.Answers) : Server k :=
  match f.functor with
  | .sendInLoop buf => s.onConn f.conn (·.sendInLoop (readString mem buf) a.write)
  | .shutdownInLoop => s.onConn f.conn (·.shutdownInLoop)
  | .connectEstablished => s.onConn f.conn (·.connectEstablished a.onConnection)
  | .connectDestroyed => s.onConn f.conn (·.connectDestroyed a.onConnection)
  | .removeConnectionInLoop => s.removeConnectionInLoop f.conn
  -- the calls of the user callbacks are `userCall` steps
  | .writeCompleteCallback => s
  | .writeCompleteMember => s
  | .highWaterMarkCallback _ => s

def execute (s : Server k) (f : BoundFunctor) (mem : Nat → Byte) (a : Conn.Answers) : Server k :=
  if s.Held f.conn then s.call f mem a else s

/-- The channels `epoll_wait` reports: those registered under the descriptors. -/
def activeChannels (p : EPollPoller) (ready : List (Nat × EventMask)) :
    List (ConnId × EventMask) :=
  ready.filterMap fun r => (p.epoll r.1).map fun reg => (reg.ptr, r.2)

/-! ## Steps -/

/-- The steps of a loop thread. -/
inductive LoopLabel where
  | poll (ready : List (Nat × EventMask))
  /-- `handleEvent` on the next active channel. -/
  | handle
  | part (a : Conn.Answers)
  | handled
  | startFunctors
  | functor (mem : Nat → Byte) (a : Conn.Answers)
  | endFunctors
  /-- User code in a callback of the loop calls an operation of a connection
  of the same loop. -/
  | userCall (c : ConnId) (u : UserCall)
  | exit

inductive Label (k : Nat) where
  | loop (ℓ : Fin (k + 1)) (e : LoopLabel)
  /-- The acceptor's handler, in the base loop. -/
  | accept (fd : Nat) (ioLoop : Fin (k + 1)) (wc hw : Bool) (mark : Nat) (us : List UserCall)
  /-- An `EventLoop` that has left `loop()` is destroyed, with its functors. -/
  | destroyLoop (ℓ : Fin (k + 1))
  | dtor
  | destroyConn (name : List Char) (us : List UserCall)
  | dtorEnd
  /-- User code in thread `tid` keeps a `TcpConnectionPtr`. -/
  | hold (tid : Nat) (c : ConnId)
  /-- It gives up its last one. -/
  | drop (tid : Nat) (c : ConnId)
  | send (tid : Nat) (c : ConnId) (buf : SentString)
  | sendQueue (tid : Nat)
  | shutdown (tid : Nat) (c : ConnId)
  | shutdownStore (tid : Nat)
  | shutdownQueue (tid : Nat)

/-- `state_` of a connection is `KConnected`. -/
def Connected (s : Server k) (c : ConnId) : Prop :=
  ∃ sc ∈ s.conns c, sc.tcp.state = .kConnected

instance (s : Server k) (c : ConnId) : Decidable (s.Connected c) := by
  unfold Connected
  infer_instance

/-- The connection exists and lives in loop `ℓ`. -/
def LivesIn (s : Server k) (c : ConnId) (ℓ : Fin (k + 1)) : Prop :=
  s.Held c ∧ ∃ sc ∈ s.conns c, sc.loop = ℓ

instance (s : Server k) (c : ConnId) (ℓ : Fin (k + 1)) : Decidable (s.LivesIn c ℓ) := by
  unfold LivesIn
  infer_instance

def setCall (s : Server k) (tid : Nat) (call : Call) : Server k :=
  { s with calls := Function.update s.calls tid call }

/-- The functor a call queues goes to the loop of the connection. -/
def queueForConn (s : Server k) (f : BoundFunctor) : Server k :=
  match s.conns f.conn with
  | some sc => s.queueInLoop sc.loop f
  | none => s

/-- `setState(KDisconnecting)` in another thread. -/
def storeDisconnecting (s : Server k) (c : ConnId) : Server k :=
  match s.conns c with
  | some sc => s.setConn c { sc with tcp := { sc.tcp with state := .kDisconnecting } }
  | none => s

def loopStep (s : Server k) (ℓ : Fin (k + 1)) : LoopLabel → Server k
  | .poll ready =>
    if (s.loops ℓ).phase = .polling then
      s.setPhase ℓ (.handlers (activeChannels (s.loops ℓ).poller ready))
    else s
  | .handle =>
    match (s.loops ℓ).phase with
    | .handlers ((c, revents) :: active) =>
      -- `tie_.lock()`: without an owner the event is dropped
      if s.Held c then s.setPhase ℓ (.handling c (Conn.dispatch revents) active)
      else s.setPhase ℓ (.handlers active)
    | _ => s
  | .part a =>
    match (s.loops ℓ).phase with
    | .handling c (p :: rest) active =>
      (s.setPhase ℓ (.handling c rest active)).onConn c (·.runPart p a)
    | _ => s
  | .handled =>
    match (s.loops ℓ).phase with
    | .handling _ [] active => s.setPhase ℓ (.handlers active)
    | _ => s
  | .startFunctors =>
    if (s.loops ℓ).phase = .handlers [] then
      -- the swap of `doPendingFunctors`
      s.setLoop ℓ { s.loops ℓ with pending := [], phase := .functors [] (s.loops ℓ).pending }
    else s
  | .functor mem a =>
    match (s.loops ℓ).phase with
    | .functors done (f :: rest) =>
      (s.setPhase ℓ (.functors (done ++ [f]) rest)).execute f mem a
    | _ => s
  | .endFunctors =>
    match (s.loops ℓ).phase with
    | .functors _ [] => s.setPhase ℓ .polling
    | _ => s
  | .userCall c u =>
    -- callbacks run in the loop of their connection
    if (s.loops ℓ).phase ≠ .polling ∧ (s.loops ℓ).phase ≠ .exited ∧ s.LivesIn c ℓ then
      s.onConn c (·.userCall u)
    else s
  | .exit => if (s.loops ℓ).phase = .polling then s.setPhase ℓ .exited else s

/-- The thread of loop `ℓ` is not inside `~TcpServer`. -/
def LoopFree (s : Server k) (ℓ : Fin (k + 1)) : Prop :=
  ℓ = baseLoop → s.lifetime ≠ .destroying

instance (s : Server k) (ℓ : Fin (k + 1)) : Decidable (s.LoopFree ℓ) := by
  unfold LoopFree
  infer_instance

/-- The acceptor's handler can run and get the descriptor `fd`; the counter
does not overflow. -/
def CanAccept (s : Server k) (fd : Nat) : Prop :=
  (s.loops baseLoop).phase.inHandlers = true ∧ (s.loops baseLoop).phase.guarded = none ∧
    s.lifetime = .alive ∧ s.nextConnId + 1 < 2 ^ 31 ∧ ¬ s.FdOpen fd

instance (s : Server k) (fd : Nat) : Decidable (s.CanAccept fd) := by
  unfold CanAccept
  infer_instance

def step (s : Server k) : Label k → Server k
  | .loop ℓ e => if s.LoopFree ℓ then s.loopStep ℓ e else s
  | .accept fd ioLoop wc hw mark us =>
    if s.CanAccept fd then s.newConnection fd ioLoop wc hw mark us else s
  | .destroyLoop ℓ =>
    -- what is still pending is dropped with the loop
    if (s.loops ℓ).phase = .exited then s.setLoop ℓ { s.loops ℓ with pending := [] } else s
  | .dtor => if s.lifetime = .alive then { s with lifetime := .destroying } else s
  | .destroyConn name us =>
    match s.lifetime, s.connections.lookup name with
    -- one turn of the loop over `connections_`
    | .destroying, some c =>
      match s.conns c with
      | some sc => s.destroyConnection name c sc us
      | none => s
    | _, _ => s
  | .dtorEnd =>
    if s.lifetime = .destroying ∧ s.connections = [] then { s with lifetime := .destroyed } else s
  | .hold tid c => if s.Held c then { s with users := (tid, c) :: s.users } else s
  | .drop tid c =>
    -- a thread keeps its pointer while it is in a call
    if (s.calls tid).pc = .idle then { s with users := s.users.filter fun u => u ≠ (tid, c) } else s
  | .send tid c buf =>
    if (s.calls tid).pc = .idle ∧ (tid, c) ∈ s.users ∧ s.Connected c then
      s.setCall tid ⟨c, .sendAccepted buf⟩
    else s
  | .sendQueue tid =>
    match s.calls tid with
    | ⟨c, .sendAccepted buf⟩ => (s.queueForConn ⟨c, .sendInLoop buf⟩).setCall tid ⟨c, .idle⟩
    | _ => s
  | .shutdown tid c =>
    if (s.calls tid).pc = .idle ∧ (tid, c) ∈ s.users ∧ s.Connected c then
      s.setCall tid ⟨c, .shutdownChecked⟩
    else s
  | .shutdownStore tid =>
    match s.calls tid with
    | ⟨c, .shutdownChecked⟩ => (s.storeDisconnecting c).setCall tid ⟨c, .shutdownStored⟩
    | _ => s
  | .shutdownQueue tid =>
    match s.calls tid with
    | ⟨c, .shutdownStored⟩ => (s.queueForConn ⟨c, .shutdownInLoop⟩).setCall tid ⟨c, .idle⟩
    | _ => s

/-- The peer has closed the connection, and there is no error to ask for. -/
def quiet : Conn.Answers := { noAnswers with readv := .ok [], sockOpt := .ok .eagain }

/-- The enabled steps of a loop thread. -/
inductive LoopStep (s : Server k) (ℓ : Fin (k + 1)) : LoopLabel → Server k → Prop where
  | poll (ready : List (Nat × EventMask)) (hphase : (s.loops ℓ).phase = .polling) :
      LoopStep s ℓ (.poll ready)
        (s.setPhase ℓ (.handlers (activeChannels (s.loops ℓ).poller ready)))
  | handle (c : ConnId) (revents : EventMask) (active : List (ConnId × EventMask))
      (hphase : (s.loops ℓ).phase = .handlers ((c, revents) :: active)) (hheld : s.Held c) :
      LoopStep s ℓ .handle (s.setPhase ℓ (.handling c (Conn.dispatch revents) active))
  | handleDead (c : ConnId) (revents : EventMask) (active : List (ConnId × EventMask))
      (hphase : (s.loops ℓ).phase = .handlers ((c, revents) :: active)) (hdead : ¬ s.Held c) :
      LoopStep s ℓ .handle (s.setPhase ℓ (.handlers active))
  | part (c : ConnId) (p : Conn.Part) (rest : List Conn.Part) (active : List (ConnId × EventMask))
      (a : Conn.Answers) (hphase : (s.loops ℓ).phase = .handling c (p :: rest) active) :
      LoopStep s ℓ (.part a) ((s.setPhase ℓ (.handling c rest active)).onConn c (·.runPart p a))
  | handled (c : ConnId) (active : List (ConnId × EventMask))
      (hphase : (s.loops ℓ).phase = .handling c [] active) :
      LoopStep s ℓ .handled (s.setPhase ℓ (.handlers active))
  | startFunctors (hphase : (s.loops ℓ).phase = .handlers []) :
      LoopStep s ℓ .startFunctors
        (s.setLoop ℓ { s.loops ℓ with pending := [], phase := .functors [] (s.loops ℓ).pending })
  | functor (done rest : List BoundFunctor) (f : BoundFunctor) (mem : Nat → Byte)
      (a : Conn.Answers) (hphase : (s.loops ℓ).phase = .functors done (f :: rest)) :
      LoopStep s ℓ (.functor mem a)
        ((s.setPhase ℓ (.functors (done ++ [f]) rest)).execute f mem a)
  | endFunctors (done : List BoundFunctor) (hphase : (s.loops ℓ).phase = .functors done []) :
      LoopStep s ℓ .endFunctors (s.setPhase ℓ .polling)
  | userCall (c : ConnId) (u : UserCall) (hpolling : (s.loops ℓ).phase ≠ .polling)
      (hexited : (s.loops ℓ).phase ≠ .exited) (hlives : s.LivesIn c ℓ) :
      LoopStep s ℓ (.userCall c u) (s.onConn c (·.userCall u))
  | exit (hphase : (s.loops ℓ).phase = .polling) : LoopStep s ℓ .exit (s.setPhase ℓ .exited)

/-- The enabled steps. -/
inductive Step (s : Server k) : Label k → Server k → Prop where
  | loop (ℓ : Fin (k + 1)) (e : LoopLabel) {s' : Server k} (hfree : s.LoopFree ℓ)
      (hstep : LoopStep s ℓ e s') : Step s (.loop ℓ e) s'
  | accept (fd : Nat) (ioLoop : Fin (k + 1)) (wc hw : Bool) (mark : Nat) (us : List UserCall)
      (haccept : s.CanAccept fd) :
      Step s (.accept fd ioLoop wc hw mark us) (s.newConnection fd ioLoop wc hw mark us)
  | destroyLoop (ℓ : Fin (k + 1)) (hphase : (s.loops ℓ).phase = .exited) :
      Step s (.destroyLoop ℓ) (s.setLoop ℓ { s.loops ℓ with pending := [] })
  | dtor (hlife : s.lifetime = .alive) : Step s .dtor { s with lifetime := .destroying }
  | destroyConn (name : List Char) (us : List UserCall) (c : ConnId) (sc : ServerConn k)
      (hlife : s.lifetime = .destroying) (hlookup : s.connections.lookup name = some c)
      (hconn : s.conns c = some sc) :
      Step s (.destroyConn name us) (s.destroyConnection name c sc us)
  | dtorEnd (hlife : s.lifetime = .destroying) (hempty : s.connections = []) :
      Step s .dtorEnd { s with lifetime := .destroyed }
  | hold (tid : Nat) (c : ConnId) (hheld : s.Held c) :
      Step s (.hold tid c) { s with users := (tid, c) :: s.users }
  | drop (tid : Nat) (c : ConnId) (hidle : (s.calls tid).pc = .idle) :
      Step s (.drop tid c) { s with users := s.users.filter fun u => u ≠ (tid, c) }
  | send (tid : Nat) (c : ConnId) (buf : SentString) (hidle : (s.calls tid).pc = .idle)
      (huser : (tid, c) ∈ s.users) (hstate : s.Connected c) :
      Step s (.send tid c buf) (s.setCall tid ⟨c, .sendAccepted buf⟩)
  | sendQueue (tid : Nat) (c : ConnId) (buf : SentString)
      (hcall : s.calls tid = ⟨c, .sendAccepted buf⟩) :
      Step s (.sendQueue tid) ((s.queueForConn ⟨c, .sendInLoop buf⟩).setCall tid ⟨c, .idle⟩)
  | shutdown (tid : Nat) (c : ConnId) (hidle : (s.calls tid).pc = .idle)
      (huser : (tid, c) ∈ s.users) (hstate : s.Connected c) :
      Step s (.shutdown tid c) (s.setCall tid ⟨c, .shutdownChecked⟩)
  | shutdownStore (tid : Nat) (c : ConnId) (hcall : s.calls tid = ⟨c, .shutdownChecked⟩) :
      Step s (.shutdownStore tid) ((s.storeDisconnecting c).setCall tid ⟨c, .shutdownStored⟩)
  | shutdownQueue (tid : Nat) (c : ConnId) (hcall : s.calls tid = ⟨c, .shutdownStored⟩) :
      Step s (.shutdownQueue tid) ((s.queueForConn ⟨c, .shutdownInLoop⟩).setCall tid ⟨c, .idle⟩)

theorem loopStep_cases (s : Server k) (ℓ : Fin (k + 1)) (e : LoopLabel) :
    s.loopStep ℓ e = s ∨ LoopStep s ℓ e (s.loopStep ℓ e) := by
  cases e with
  | poll ready =>
    simp only [loopStep]
    split
    · rename_i hphase
      exact Or.inr (.poll ready hphase)
    · exact Or.inl rfl
  | handle =>
    simp only [loopStep]
    split
    · rename_i c revents active hphase
      split
      · rename_i hheld
        exact Or.inr (.handle c revents active hphase hheld)
      · rename_i hdead
        exact Or.inr (.handleDead c revents active hphase hdead)
    · exact Or.inl rfl
  | part a =>
    simp only [loopStep]
    split
    · rename_i c p rest active hphase
      exact Or.inr (.part c p rest active a hphase)
    · exact Or.inl rfl
  | handled =>
    simp only [loopStep]
    split
    · rename_i c active hphase
      exact Or.inr (.handled c active hphase)
    · exact Or.inl rfl
  | startFunctors =>
    simp only [loopStep]
    split
    · rename_i hphase
      exact Or.inr (.startFunctors hphase)
    · exact Or.inl rfl
  | functor mem a =>
    simp only [loopStep]
    split
    · rename_i done f rest hphase
      exact Or.inr (.functor done rest f mem a hphase)
    · exact Or.inl rfl
  | endFunctors =>
    simp only [loopStep]
    split
    · rename_i done hphase
      exact Or.inr (.endFunctors done hphase)
    · exact Or.inl rfl
  | userCall c u =>
    simp only [loopStep]
    split
    · rename_i h
      exact Or.inr (.userCall c u h.1 h.2.1 h.2.2)
    · exact Or.inl rfl
  | exit =>
    simp only [loopStep]
    split
    · rename_i hphase
      exact Or.inr (.exit hphase)
    · exact Or.inl rfl

/-- A step is a stutter or one of the enabled steps. -/
theorem step_cases (s : Server k) (e : Label k) : s.step e = s ∨ Step s e (s.step e) := by
  cases e with
  | loop ℓ e =>
    simp only [step]
    split
    · rename_i hfree
      rcases loopStep_cases s ℓ e with hstutter | hstep
      · exact Or.inl hstutter
      · exact Or.inr (.loop ℓ e hfree hstep)
    · exact Or.inl rfl
  | accept fd ioLoop wc hw mark us =>
    simp only [step]
    split
    · rename_i haccept
      exact Or.inr (.accept fd ioLoop wc hw mark us haccept)
    · exact Or.inl rfl
  | destroyLoop ℓ =>
    simp only [step]
    split
    · rename_i hphase
      exact Or.inr (.destroyLoop ℓ hphase)
    · exact Or.inl rfl
  | dtor =>
    simp only [step]
    split
    · rename_i hlife
      exact Or.inr (.dtor hlife)
    · exact Or.inl rfl
  | destroyConn name us =>
    simp only [step]
    split
    · rename_i c hlife hlookup
      split
      · rename_i sc hconn
        exact Or.inr (.destroyConn name us c sc hlife hlookup hconn)
      · exact Or.inl rfl
    · exact Or.inl rfl
  | dtorEnd =>
    simp only [step]
    split
    · rename_i h
      exact Or.inr (.dtorEnd h.1 h.2)
    · exact Or.inl rfl
  | hold tid c =>
    simp only [step]
    split
    · rename_i hheld
      exact Or.inr (.hold tid c hheld)
    · exact Or.inl rfl
  | drop tid c =>
    simp only [step]
    split
    · rename_i hidle
      exact Or.inr (.drop tid c hidle)
    · exact Or.inl rfl
  | send tid c buf =>
    simp only [step]
    split
    · rename_i h
      exact Or.inr (.send tid c buf h.1 h.2.1 h.2.2)
    · exact Or.inl rfl
  | sendQueue tid =>
    simp only [step]
    split
    · rename_i c buf hcall
      exact Or.inr (.sendQueue tid c buf hcall)
    · exact Or.inl rfl
  | shutdown tid c =>
    simp only [step]
    split
    · rename_i h
      exact Or.inr (.shutdown tid c h.1 h.2.1 h.2.2)
    · exact Or.inl rfl
  | shutdownStore tid =>
    simp only [step]
    split
    · rename_i c hcall
      exact Or.inr (.shutdownStore tid c hcall)
    · exact Or.inl rfl
  | shutdownQueue tid =>
    simp only [step]
    split
    · rename_i c hcall
      exact Or.inr (.shutdownQueue tid c hcall)
    · exact Or.inl rfl

theorem covers : Covers (Step (k := k)) step := step_cases

end Server

end EchoServer
