import EchoServer.Lib.Runs
import EchoServer.Lifecycle

/-!
# One connection between its loop and other threads

The loop thread polls, runs the handlers of the active channels, and executes
a batch of pending functors; other threads call `send` and `shutdown` in
between. What the threads share is one step each: the test of `state_` in
`send` and `shutdown`, the store in `shutdown`, the push in `queueInLoop`, the
test and the store in `connectDestroyed`, and every store to the memory the
strings live in. A handler or a functor is one step of the loop thread: it
reads or writes `state_` at one point only.

* `World.step`: the step function; a label that is not enabled is a stutter;
* `World.Step`, `step_cases`: the enabled steps, one constructor each.
-/

namespace EchoServer

open Runs

/-! ## State -/

/-- Where another thread stands in its call on the connection. -/
inductive ThreadPc where
  | idle
  /-- `send` has passed its test and not yet queued its functor. -/
  | sendAccepted (buf : SentString)
  /-- `shutdown` has passed its test. -/
  | shutdownChecked
  /-- `shutdown` has stored `KDisconnecting` and not yet queued its functor. -/
  | shutdownStored
deriving DecidableEq, Repr

/-- Where the loop thread stands in `EventLoop::loop`. -/
inductive LoopPc where
  | polling
  /-- Among the handlers of the active channels; `active` are the events of
  this connection's channel as long as they have not been handled. -/
  | handlers (active : Option EventMask)
  /-- In `handleEventWithGuard`, before the callbacks `rest`. -/
  | handling (rest : List Conn.Part)
  /-- In `doPendingFunctors`. -/
  | functors
deriving DecidableEq, Repr

structure World where
  conn : Conn
  /-- The memory the callers' strings live in. -/
  mem : Nat → Byte
  pending : List Functor
  /-- What `doPendingFunctors` swapped out and has not yet executed. -/
  batch : List Functor
  pc : LoopPc
  /-- `connectDestroyed` has made its test: whether it read `KConnected`. -/
  destroying : Option Bool
  threads : Nat → ThreadPc

namespace World

/-- The functors a piece of trace hands to the loop. -/
def queuedFunctors (es : List Effect) : List Functor :=
  es.filterMap fun
    | .queueInLoop f => some f
    | _ => none

/-- The functor queued by another thread. -/
def push (w : World) (f : Functor) : World := { w with pending := w.pending ++ [f] }

/-- The loop thread brings the connection to `c`; what it queues meanwhile is
pending. -/
def withConn (w : World) (c : Conn) : World :=
  { w with
    conn := c
    pending := w.pending ++ queuedFunctors (c.trace.drop w.conn.trace.length) }

def setThread (w : World) (tid : Nat) (pc : ThreadPc) : World :=
  { w with threads := Function.update w.threads tid pc }

/-- The bytes `[data, data + len)`. -/
def window (w : World) (data len : Nat) : List Byte :=
  (List.range len).map fun i => w.mem (data + i)

/-! ## Steps -/

/-- The steps of the loop thread. -/
inductive LoopLabel where
  /-- `epoll_wait` returns, with the events of the channel if it is active. -/
  | poll (revents : Option EventMask)
  | handle
  | part (a : Conn.Answers)
  | handled
  /-- User code in the loop thread: from a callback of this connection or from
  the handler or functor of another one. -/
  | userCall (u : UserCall)
  | swap
  | functor (a : Conn.Answers)
  | endFunctors
  /-- `connectDestroyed` called directly, by a `~TcpServer` in this thread. -/
  | connectDestroyed
deriving DecidableEq, Repr

inductive Label where
  | send (tid data len : Nat)
  | sendQueue (tid : Nat)
  | shutdown (tid : Nat)
  | shutdownStore (tid : Nat)
  | shutdownQueue (tid : Nat)
  /-- Any thread writes to a string, or the memory is reused. -/
  | store (addr : Nat) (b : Byte)
  /-- `connectDestroyed` is queued, by `removeConnectionInLoop` or by a
  `~TcpServer` in another thread. -/
  | queueDestroyed
  | loop (e : LoopLabel)
  /-- The rest of `connectDestroyed`, after its test. -/
  | destroyRest (onConnection : List UserCall)
deriving DecidableEq, Repr

/-- The test `connectDestroyed` begins with. -/
def testConnected (w : World) : World :=
  { w with destroying := some (w.conn.tcp.state == .kConnected) }

/-- One functor of the batch. The calls that user code makes from a callback
are `userCall` steps. -/
def execute (w : World) (f : Functor) (a : Conn.Answers) : World :=
  match f with
  | .sendInLoop buf => w.withConn (w.conn.sendInLoop (w.window buf.data buf.len) a.write)
  | .shutdownInLoop => w.withConn w.conn.shutdownInLoop
  | .writeCompleteCallback => w
  | .writeCompleteMember => w
  | .highWaterMarkCallback _ => w
  | .connectEstablished => w.withConn (w.conn.connectEstablished a.onConnection)
  | .connectDestroyed => w.testConnected
  | .removeConnectionInLoop => w.push .connectDestroyed

/-- The channel can be among the active ones. -/
def reports (w : World) : Option EventMask → Bool
  | some _ => w.conn.poller.registered w.conn.tcp.channel
  | none => true

def runFunctor (w : World) (a : Conn.Answers) : World :=
  match w.batch with
  | f :: rest => { w with batch := rest }.execute f a
  | [] => w

def loopStep (w : World) : LoopLabel → World
  | .poll revents =>
    if w.pc = .polling ∧ w.reports revents = true then { w with pc := .handlers revents } else w
  | .handle =>
    match w.pc with
    | .handlers (some revents) => { w with pc := .handling (Conn.dispatch revents) }
    | _ => w
  | .part a =>
    match w.pc with
    | .handling (p :: rest) => { w.withConn (w.conn.runPart p a) with pc := .handling rest }
    | _ => w
  | .handled => if w.pc = .handling [] then { w with pc := .handlers none } else w
  | .userCall u => if w.pc = .polling then w else w.withConn (w.conn.userCall u)
  | .swap =>
    if w.pc = .handlers none then { w with pc := .functors, batch := w.pending, pending := [] }
    else w
  | .functor a => if w.pc = .functors then w.runFunctor a else w
  | .endFunctors => if w.pc = .functors ∧ w.batch = [] then { w with pc := .polling } else w
  | .connectDestroyed =>
    if w.pc = .polling ∨ w.pc = .functors then w.testConnected else w

def step (w : World) : Label → World
  | .send tid data len =>
    -- `state_` is tested in the calling thread, before the functor is queued
    if w.threads tid = .idle ∧ w.conn.tcp.state = .kConnected then
      w.setThread tid (.sendAccepted ⟨data, len, w.window data len⟩)
    else w
  | .sendQueue tid =>
    match w.threads tid with
    | .sendAccepted buf => (w.push (.sendInLoop buf)).setThread tid .idle
    | _ => w
  | .shutdown tid =>
    if w.threads tid = .idle ∧ w.conn.tcp.state = .kConnected then
      w.setThread tid .shutdownChecked
    else w
  | .shutdownStore tid =>
    if w.threads tid = .shutdownChecked then
      -- no test here: another thread may have moved on since
      { w with conn := w.conn.setState .kDisconnecting }.setThread tid .shutdownStored
    else w
  | .shutdownQueue tid =>
    if w.threads tid = .shutdownStored then
      (w.push .shutdownInLoop).setThread tid .idle
    else w
  | .store addr b => { w with mem := Function.update w.mem addr b }
  | .queueDestroyed => w.push .connectDestroyed
  | .loop e => if w.destroying = none then w.loopStep e else w
  | .destroyRest us =>
    match w.destroying with
    -- what the test of `state_` has read is not read again
    | some saw => { w.withConn (w.conn.connectDestroyedAfter saw us) with destroying := none }
    | none => w

/-- The enabled steps. -/
inductive Step (w : World) : Label → World → Prop where
  | send (tid data len : Nat) (hpc : w.threads tid = .idle)
      (hstate : w.conn.tcp.state = .kConnected) :
      Step w (.send tid data len) (w.setThread tid (.sendAccepted ⟨data, len, w.window data len⟩))
  | sendQueue (tid : Nat) (buf : SentString) (hpc : w.threads tid = .sendAccepted buf) :
      Step w (.sendQueue tid) ((w.push (.sendInLoop buf)).setThread tid .idle)
  | shutdown (tid : Nat) (hpc : w.threads tid = .idle)
      (hstate : w.conn.tcp.state = .kConnected) :
      Step w (.shutdown tid) (w.setThread tid .shutdownChecked)
  | shutdownStore (tid : Nat) (hpc : w.threads tid = .shutdownChecked) :
      Step w (.shutdownStore tid)
        ({ w with conn := w.conn.setState .kDisconnecting }.setThread tid .shutdownStored)
  | shutdownQueue (tid : Nat) (hpc : w.threads tid = .shutdownStored) :
      Step w (.shutdownQueue tid) ((w.push .shutdownInLoop).setThread tid .idle)
  | store (addr : Nat) (b : Byte) :
      Step w (.store addr b) { w with mem := Function.update w.mem addr b }
  | queueDestroyed : Step w .queueDestroyed (w.push .connectDestroyed)
  | poll (revents : Option EventMask) (hdest : w.destroying = none) (hpc : w.pc = .polling)
      (hreports : w.reports revents = true) :
      Step w (.loop (.poll revents)) { w with pc := .handlers revents }
  | handle (revents : EventMask) (hdest : w.destroying = none)
      (hpc : w.pc = .handlers (some revents)) :
      Step w (.loop .handle) { w with pc := .handling (Conn.dispatch revents) }
  | part (p : Conn.Part) (rest : List Conn.Part) (a : Conn.Answers) (hdest : w.destroying = none)
      (hpc : w.pc = .handling (p :: rest)) :
      Step w (.loop (.part a)) { w.withConn (w.conn.runPart p a) with pc := .handling rest }
  | handled (hdest : w.destroying = none) (hpc : w.pc = .handling []) :
      Step w (.loop .handled) { w with pc := .handlers none }
  | userCall (u : UserCall) (hdest : w.destroying = none) (hpc : w.pc ≠ .polling) :
      Step w (.loop (.userCall u)) (w.withConn (w.conn.userCall u))
  | swap (hdest : w.destroying = none) (hpc : w.pc = .handlers none) :
      Step w (.loop .swap) { w with pc := .functors, batch := w.pending, pending := [] }
  | functor (f : Functor) (rest : List Functor) (a : Conn.Answers) (hdest : w.destroying = none)
      (hpc : w.pc = .functors) (hbatch : w.batch = f :: rest) :
      Step w (.loop (.functor a)) ({ w with batch := rest }.execute f a)
  | endFunctors (hdest : w.destroying = none) (hpc : w.pc = .functors) (hbatch : w.batch = []) :
      Step w (.loop .endFunctors) { w with pc := .polling }
  | connectDestroyed (hdest : w.destroying = none) (hpc : w.pc = .polling ∨ w.pc = .functors) :
      Step w (.loop .connectDestroyed) w.testConnected
  | destroyRest (saw : Bool) (us : List UserCall) (hdest : w.destroying = some saw) :
      Step w (.destroyRest us)
        { w.withConn (w.conn.connectDestroyedAfter saw us) with destroying := none }

theorem loopStep_cases {w : World} (hdest : w.destroying = none) (e : LoopLabel) :
    w.loopStep e = w ∨ Step w (.loop e) (w.loopStep e) := by
  cases e with
  | poll revents =>
    simp only [loopStep]
    split
    · rename_i h
      exact Or.inr (.poll revents hdest h.1 h.2)
    · exact Or.inl rfl
  | handle =>
    simp only [loopStep]
    split
    · rename_i revents hpc
      exact Or.inr (.handle revents hdest hpc)
    · exact Or.inl rfl
  | part a =>
    simp only [loopStep]
    split
    · rename_i p rest hpc
      exact Or.inr (.part p rest a hdest hpc)
    · exact Or.inl rfl
  | handled =>
    simp only [loopStep]
    split
    · rename_i hpc
      exact Or.inr (.handled hdest hpc)
    · exact Or.inl rfl
  | userCall u =>
    simp only [loopStep]
    split
    · exact Or.inl rfl
    · rename_i hpc
      exact Or.inr (.userCall u hdest hpc)
  | swap =>
    simp only [loopStep]
    split
    · rename_i hpc
      exact Or.inr (.swap hdest hpc)
    · exact Or.inl rfl
  | functor a =>
    simp only [loopStep, runFunctor]
    split
    · rename_i hpc
      split
      · rename_i f rest hbatch
        exact Or.inr (.functor f rest a hdest hpc hbatch)
      · exact Or.inl rfl
    · exact Or.inl rfl
  | endFunctors =>
    simp only [loopStep]
    split
    · rename_i h
      exact Or.inr (.endFunctors hdest h.1 h.2)
    · exact Or.inl rfl
  | connectDestroyed =>
    simp only [loopStep]
    split
    · rename_i hpc
      exact Or.inr (.connectDestroyed hdest hpc)
    · exact Or.inl rfl

/-- A step is a stutter or one of the enabled steps. -/
theorem step_cases (w : World) (e : Label) : w.step e = w ∨ Step w e (w.step e) := by
  cases e with
  | send tid data len =>
    simp only [step]
    split
    · rename_i h
      exact Or.inr (.send tid data len h.1 h.2)
    · exact Or.inl rfl
  | sendQueue tid =>
    simp only [step]
    split
    · rename_i buf hpc
      exact Or.inr (.sendQueue tid buf hpc)
    · exact Or.inl rfl
  | shutdown tid =>
    simp only [step]
    split
    · rename_i h
      exact Or.inr (.shutdown tid h.1 h.2)
    · exact Or.inl rfl
  | shutdownStore tid =>
    simp only [step]
    split
    · rename_i hpc
      exact Or.inr (.shutdownStore tid hpc)
    · exact Or.inl rfl
  | shutdownQueue tid =>
    simp only [step]
    split
    · rename_i hpc
      exact Or.inr (.shutdownQueue tid hpc)
    · exact Or.inl rfl
  | store addr b => exact Or.inr (.store addr b)
  | queueDestroyed => exact Or.inr .queueDestroyed
  | loop e =>
    simp only [step]
    split
    · rename_i hdest
      exact loopStep_cases hdest e
    · exact Or.inl rfl
  | destroyRest us =>
    simp only [step]
    split
    · rename_i saw hdest
      exact Or.inr (.destroyRest saw us hdest)
    · exact Or.inl rfl

theorem covers : Covers Step step := step_cases

/-! ## Field lemmas -/

@[simp] theorem withConn_conn (w : World) (c : Conn) : (w.withConn c).conn = c := rfl
@[simp] theorem withConn_mem (w : World) (c : Conn) : (w.withConn c).mem = w.mem := rfl
@[simp] theorem withConn_batch (w : World) (c : Conn) : (w.withConn c).batch = w.batch := rfl
@[simp] theorem withConn_pc (w : World) (c : Conn) : (w.withConn c).pc = w.pc := rfl
@[simp] theorem withConn_destroying (w : World) (c : Conn) :
    (w.withConn c).destroying = w.destroying := rfl
@[simp] theorem withConn_threads (w : World) (c : Conn) : (w.withConn c).threads = w.threads := rfl

@[simp] theorem push_conn (w : World) (f : Functor) : (w.push f).conn = w.conn := rfl
@[simp] theorem push_batch (w : World) (f : Functor) : (w.push f).batch = w.batch := rfl
@[simp] theorem push_pending (w : World) (f : Functor) :
    (w.push f).pending = w.pending ++ [f] := rfl
@[simp] theorem push_pc (w : World) (f : Functor) : (w.push f).pc = w.pc := rfl
@[simp] theorem push_destroying (w : World) (f : Functor) :
    (w.push f).destroying = w.destroying := rfl
@[simp] theorem push_threads (w : World) (f : Functor) : (w.push f).threads = w.threads := rfl

@[simp] theorem setThread_conn (w : World) (tid : Nat) (pc : ThreadPc) :
    (w.setThread tid pc).conn = w.conn := rfl
@[simp] theorem setThread_batch (w : World) (tid : Nat) (pc : ThreadPc) :
    (w.setThread tid pc).batch = w.batch := rfl
@[simp] theorem setThread_pending (w : World) (tid : Nat) (pc : ThreadPc) :
    (w.setThread tid pc).pending = w.pending := rfl
@[simp] theorem setThread_pc (w : World) (tid : Nat) (pc : ThreadPc) :
    (w.setThread tid pc).pc = w.pc := rfl
@[simp] theorem setThread_destroying (w : World) (tid : Nat) (pc : ThreadPc) :
    (w.setThread tid pc).destroying = w.destroying := rfl

@[simp] theorem testConnected_conn (w : World) : w.testConnected.conn = w.conn := rfl
@[simp] theorem testConnected_batch (w : World) : w.testConnected.batch = w.batch := rfl
@[simp] theorem testConnected_pending (w : World) : w.testConnected.pending = w.pending := rfl
@[simp] theorem testConnected_pc (w : World) : w.testConnected.pc = w.pc := rfl
@[simp] theorem testConnected_threads (w : World) : w.testConnected.threads = w.threads := rfl

theorem mem_queuedFunctors {es : List Effect} {f : Functor} :
    f ∈ queuedFunctors es ↔ .queueInLoop f ∈ es := by
  unfold queuedFunctors
  rw [List.mem_filterMap]
  constructor
  · rintro ⟨e, he, heq⟩
    cases e with
    | queueInLoop g =>
      rw [← Option.some.inj heq]
      exact he
    | _ => cases heq
  · intro h
    exact ⟨_, h, rfl⟩

/-- What the loop thread queues while it brings the connection to `c` is in the
trace of `c`. -/
theorem mem_withConn_pending {w : World} {c : Conn} {f : Functor}
    (h : f ∈ (w.withConn c).pending) : f ∈ w.pending ∨ .queueInLoop f ∈ c.trace := by
  rcases List.mem_append.mp h with h | h
  · exact Or.inl h
  · exact Or.inr (List.mem_of_mem_drop (mem_queuedFunctors.mp h))

end World

/-- The socket has nothing to read and no room, and user code calls nothing. -/
def noAnswers : Conn.Answers where
  readv := .err .eagain
  write := .err .eagain
  sockOpt := .ok (.other 0)
  onMessage := []
  onConnection := []

/-- The socket takes everything. -/
def healthySocket : Conn.Answers := { noAnswers with write := .ok 4096 }

end EchoServer
