import Mathlib.Data.List.Range
import EchoServer.EventLoopThreadPool
import EchoServer.Lib.Runs

/-!
# Starting a server

`TcpServer::start` may be called any number of times and by any threads: the one
whose `fetch_add` gets 0 starts the loops one after the other and has the
acceptor listen; in the meantime clients knock, and the base loop's thread reads
the pool for every connection it accepts, without a lock.

* `Step`, `step_cases`: the enabled steps;
* `Stage`, `Stage.step`: how far the server has come;
* `served_in_turn`: as long as the counter does not wrap, the loops are started
  once and are all there before the first client is accepted; the clients get
  the loops in turn and are numbered from 1, none is lost and none served twice.
-/

namespace EchoServer

open Runs

/-- What a `TcpServer` is constructed and set up with. -/
structure ServerSetup (L : Type u) where
  name : List Char
  listenAddr : InetAddress
  baseLoop : L
  /-- The thread of `baseLoop`. -/
  baseThread : Nat
  /-- What the memory of the pool's `baseLoop_` holds. -/
  storage : L
  numThreads : Int
  /-- `threadInitCallback_` is set. -/
  threadInitCallback : Bool
  /-- The loops that the threads publish. -/
  startLoop : Nat → L

/-- Where a thread stands in `TcpServer::start`. -/
inductive Starter where
  | idle
  /-- In `threadPool_->start`, about to test `i < numThreads_`. -/
  | spawning (i : Nat)
  /-- Before `loop_->runInLoop`. -/
  | launching
deriving DecidableEq, Repr

/-- A call of `newConnection`. -/
structure Admission (L : Type u) where
  peer : InetAddress
  ioLoop : Option L
  name : List Char

structure Listener (L : Type u) where
  /-- `std::atomic_int started_`. -/
  started : BitVec 32
  starters : Nat → Starter
  pool : EventLoopThreadPool L
  /-- The calls of `Acceptor::listen` queued in the base loop. -/
  pending : Nat
  /-- `listening_`, with the channel of the acceptor reading. -/
  listening : Bool
  /-- The connections that wait in the kernel to be accepted. -/
  backlog : List InetAddress
  nextConnId : Nat
  admitted : List (Admission L)

namespace Listener

variable {L : Type u} (S : ServerSetup L)

/-! ## Steps -/

def newPool : EventLoopThreadPool L :=
  (EventLoopThreadPool.new S.storage S.baseLoop S.name).setThreadNum S.numThreads

def init : Listener L where
  started := 0
  starters := fun _ => .idle
  pool := newPool S
  pending := 0
  listening := false
  backlog := []
  nextConnId := 1
  admitted := []

def setStarter (s : Listener L) (tid : Nat) (pc : Starter) : Listener L :=
  { s with starters := Function.update s.starters tid pc }

/-- `fetch_add`, with what follows up to the loop in `threadPool_->start`. -/
def start (s : Listener L) (tid : Nat) : Listener L :=
  if s.started = 0 then
    { s with started := s.started + 1, pool := { s.pool with started := true } }.setStarter tid
      (.spawning 0)
  else { s with started := s.started + 1 }

/-- The end of `threadPool_->start`. -/
def finishPool (p : EventLoopThreadPool L) (cb : Bool) : EventLoopThreadPool L :=
  if p.numThreads = 0 ∧ cb = true then { p with initialised := p.initialised ++ [p.baseLoop] }
  else p

/-- `Acceptor::listen`; a failing `listen` aborts the process. -/
def listen (s : Listener L) : Listener L := { s with listening := true }

/-- `newConnection`. -/
def newConnection (s : Listener L) (peer : InetAddress) : Listener L :=
  { s with
    pool := s.pool.getNextLoop.2
    nextConnId := s.nextConnId + 1
    admitted := s.admitted ++
      [⟨peer, s.pool.getNextLoop.1, connName S.name S.listenAddr.toIpPort s.nextConnId⟩] }

inductive Label where
  | start (tid : Nat)
  /-- One test of `i < numThreads_`, and the iteration if it holds. -/
  | spawn (tid : Nat)
  | runInLoop (tid : Nat)
  /-- The base loop executes `Acceptor::listen`. -/
  | listen
  | arrive (peer : InetAddress)
  /-- `Acceptor::handleRead`; `ok`: `accept4` returns a descriptor if it can. -/
  | handleRead (ok : Bool)

def step (s : Listener L) : Label → Listener L
  | .start tid => if s.starters tid = .idle then s.start tid else s
  | .spawn tid =>
    match s.starters tid with
    | .spawning i =>
      if (i : Int) < S.numThreads then
        { s with
          pool := EventLoopThreadPool.startThread S.startLoop S.threadInitCallback s.pool
            i }.setStarter tid (.spawning (i + 1))
      else { s with pool := finishPool s.pool S.threadInitCallback }.setStarter tid .launching
    | _ => s
  | .runInLoop tid =>
    if s.starters tid = .launching then
      if tid = S.baseThread then s.listen.setStarter tid .idle
      else { s with pending := s.pending + 1 }.setStarter tid .idle
    else s
  | .listen => if 0 < s.pending then { s with pending := s.pending - 1 }.listen else s
  | .arrive peer =>
    -- a socket that does not listen refuses the client
    if s.listening then { s with backlog := s.backlog ++ [peer] } else s
  | .handleRead ok =>
    match s.backlog, ok with
    | peer :: rest, true =>
      -- the counter does not overflow
      if s.listening = true ∧ s.nextConnId + 1 < 2 ^ 31 then
        { s with backlog := rest }.newConnection S peer
      else s
    -- an error leaves the client where it is
    | _, _ => s

/-- The enabled steps. -/
inductive Step (s : Listener L) : Label → Listener L → Prop where
  | first (tid : Nat) (hidle : s.starters tid = .idle) (hzero : s.started = 0) :
      Step s (.start tid)
        ({ s with started := s.started + 1, pool := { s.pool with started := true } }.setStarter tid
          (.spawning 0))
  | again (tid : Nat) (hidle : s.starters tid = .idle) (hstarted : s.started ≠ 0) :
      Step s (.start tid) { s with started := s.started + 1 }
  | spawn (tid i : Nat) (hpc : s.starters tid = .spawning i) (hlt : (i : Int) < S.numThreads) :
      Step s (.spawn tid)
        ({ s with
          pool := EventLoopThreadPool.startThread S.startLoop S.threadInitCallback s.pool
            i }.setStarter tid (.spawning (i + 1)))
  | spawned (tid i : Nat) (hpc : s.starters tid = .spawning i) (hge : ¬ (i : Int) < S.numThreads) :
      Step s (.spawn tid)
        ({ s with pool := finishPool s.pool S.threadInitCallback }.setStarter tid .launching)
  | listenAtOnce (tid : Nat) (hpc : s.starters tid = .launching) :
      Step s (.runInLoop tid) (s.listen.setStarter tid .idle)
  | queueListen (tid : Nat) (hpc : s.starters tid = .launching) :
      Step s (.runInLoop tid) ({ s with pending := s.pending + 1 }.setStarter tid .idle)
  | listen (hpending : 0 < s.pending) :
      Step s .listen { s with pending := s.pending - 1 }.listen
  | arrive (peer : InetAddress) (hlistening : s.listening = true) :
      Step s (.arrive peer) { s with backlog := s.backlog ++ [peer] }
  | accept (peer : InetAddress) (rest : List InetAddress) (hbacklog : s.backlog = peer :: rest)
      (hlistening : s.listening = true) :
      Step s (.handleRead true) ({ s with backlog := rest }.newConnection S peer)

theorem step_cases (s : Listener L) (e : Label) : s.step S e = s ∨ Step S s e (s.step S e) := by
  cases e with
  | start tid =>
    simp only [step]
    split
    · rename_i hidle
      unfold start
      split
      · rename_i hzero
        exact Or.inr (.first tid hidle hzero)
      · rename_i hstarted
        exact Or.inr (.again tid hidle hstarted)
    · exact Or.inl rfl
  | spawn tid =>
    simp only [step]
    split
    · rename_i i hpc
      split
      · rename_i hlt
        exact Or.inr (.spawn tid i hpc hlt)
      · rename_i hge
        exact Or.inr (.spawned tid i hpc hge)
    · exact Or.inl rfl
  | runInLoop tid =>
    simp only [step]
    split
    · rename_i hpc
      split
      · exact Or.inr (.listenAtOnce tid hpc)
      · exact Or.inr (.queueListen tid hpc)
    · exact Or.inl rfl
  | listen =>
    simp only [step]
    split
    · rename_i hpending
      exact Or.inr (.listen hpending)
    · exact Or.inl rfl
  | arrive peer =>
    simp only [step]
    split
    · rename_i hlistening
      exact Or.inr (.arrive peer hlistening)
    · exact Or.inl rfl
  | handleRead ok =>
    simp only [step]
    split
    · rename_i peer rest hbacklog
      split
      · rename_i hready
        exact Or.inr (.accept peer rest hbacklog hready.1)
      · exact Or.inl rfl
    · exact Or.inl rfl

theorem covers : Covers (Step S) (step S) := step_cases S

/-! ## How far the server has come -/

/-- The pool after `threadPool_->start`. -/
def startedPool : EventLoopThreadPool L :=
  (newPool S).start S.startLoop S.threadInitCallback

/-- The pool within it, before iteration `i`. -/
def poolAt (i : Nat) : EventLoopThreadPool L :=
  (List.range i).foldl (EventLoopThreadPool.startThread S.startLoop S.threadInitCallback)
    { newPool S with started := true }

/-- `next_` after `m` connections. -/
def servingPool (m : Nat) : EventLoopThreadPool L := (startedPool S).calls m

/-- No other thread is in `TcpServer::start`. -/
def OnlyStarter (s : Listener L) (tid : Nat) : Prop := ∀ t, t ≠ tid → s.starters t = .idle

inductive Stage (s : Listener L) : Prop where
  | fresh (hstarted : s.started = 0) (hidle : ∀ t, s.starters t = .idle)
      (hpool : s.pool = newPool S) (hpending : s.pending = 0) (hlistening : s.listening = false)
      (hadmitted : s.admitted = [])
  | spawning (tid i : Nat) (hstarted : s.started ≠ 0) (hpc : s.starters tid = .spawning i)
      (honly : s.OnlyStarter tid) (hi : i ≤ S.numThreads.toNat) (hpool : s.pool = poolAt S i)
      (hpending : s.pending = 0) (hlistening : s.listening = false) (hadmitted : s.admitted = [])
  | launching (tid : Nat) (hstarted : s.started ≠ 0) (hpc : s.starters tid = .launching)
      (honly : s.OnlyStarter tid) (hpool : s.pool = startedPool S) (hpending : s.pending = 0)
      (hlistening : s.listening = false) (hadmitted : s.admitted = [])
  | queued (hstarted : s.started ≠ 0) (hidle : ∀ t, s.starters t = .idle)
      (hpool : s.pool = startedPool S) (hpending : s.pending = 1) (hlistening : s.listening = false)
      (hadmitted : s.admitted = [])
  | serving (hstarted : s.started ≠ 0) (hidle : ∀ t, s.starters t = .idle)
      (hpool : s.pool = servingPool S s.admitted.length) (hpending : s.pending = 0)
      (hlistening : s.listening = true)

/-- The counter does not wrap around. -/
def NoWrap (s : Listener L) : Label → Prop
  | .start tid => s.starters tid = .idle → s.started + 1 ≠ 0
  | _ => True

instance (s : Listener L) (e : Label) : Decidable (s.NoWrap e) := by
  cases e <;> unfold NoWrap <;> infer_instance

variable {S}

theorem setStarter_self (s : Listener L) (tid : Nat) (pc : Starter) :
    (s.setStarter tid pc).starters tid = pc := Function.update_self ..

theorem setStarter_only {s : Listener L} {tid : Nat} (h : s.OnlyStarter tid) (pc : Starter) :
    (s.setStarter tid pc).OnlyStarter tid := by
  intro t ht
  have hsame : (s.setStarter tid pc).starters t = s.starters t := Function.update_of_ne ht ..
  rw [hsame]
  exact h t ht

theorem OnlyStarter.eq {s : Listener L} {tid t : Nat} (h : s.OnlyStarter tid)
    (hpc : s.starters t ≠ .idle) : t = tid := by
  by_contra hne
  exact hpc (h t hne)

/-- The only thread in `start` leaves it. -/
theorem OnlyStarter.leave {s : Listener L} {tid : Nat} (h : s.OnlyStarter tid) (t : Nat) :
    (s.setStarter tid .idle).starters t = .idle := by
  by_cases ht : t = tid
  · rw [ht]
    exact setStarter_self s tid .idle
  · exact setStarter_only h .idle t ht

theorem poolAt_succ (i : Nat) : poolAt S (i + 1) =
    EventLoopThreadPool.startThread S.startLoop S.threadInitCallback (poolAt S i) i := by
  rw [poolAt, List.range_succ, List.foldl_append]
  rfl

/-- The iterations of one thread are the call. -/
theorem finishPool_poolAt :
    finishPool (poolAt S S.numThreads.toNat) S.threadInitCallback = startedPool S := by
  have hthreads : (poolAt S S.numThreads.toNat).numThreads = S.numThreads := by
    rw [poolAt, EventLoopThreadPool.startThreads_eq]
    rfl
  unfold finishPool startedPool EventLoopThreadPool.start
  by_cases hcallback : S.numThreads = 0 ∧ S.threadInitCallback = true
  · rw [if_pos (by rwa [hthreads])]
    exact (if_pos hcallback).symm
  · rw [if_neg (by rwa [hthreads])]
    exact (if_neg hcallback).symm

theorem getNextLoop_servingPool (m : Nat) :
    (servingPool S m).getNextLoop.2 = servingPool S (m + 1) := rfl

theorem Stage.again {s : Listener L} (h : Stage S s) (hstarted : s.started ≠ 0)
    (hwrap : s.started + 1 ≠ 0) : Stage S { s with started := s.started + 1 } := by
  cases h with
  | fresh hzero => exact absurd hzero hstarted
  | spawning tid i _ hpc honly hi hpool hpending hlistening hadmitted =>
    exact .spawning tid i hwrap hpc honly hi hpool hpending hlistening hadmitted
  | launching tid _ hpc honly hpool hpending hlistening hadmitted =>
    exact .launching tid hwrap hpc honly hpool hpending hlistening hadmitted
  | queued _ hidle hpool hpending hlistening hadmitted =>
    exact .queued hwrap hidle hpool hpending hlistening hadmitted
  | serving _ hidle hpool hpending hlistening =>
    exact .serving hwrap hidle hpool hpending hlistening

/-- A thread in the loop of `threadPool_->start` is the one that started it. -/
theorem Stage.of_spawning {s : Listener L} (h : Stage S s) {tid i : Nat}
    (hpc : s.starters tid = .spawning i) :
    s.started ≠ 0 ∧ s.OnlyStarter tid ∧ i ≤ S.numThreads.toNat ∧ s.pool = poolAt S i ∧
      s.pending = 0 ∧ s.listening = false ∧ s.admitted = [] := by
  cases h with
  | spawning t j hstarted hpc' honly hj hpool hpending hlistening hadmitted =>
    obtain rfl : tid = t := honly.eq (by simp [hpc])
    obtain rfl : i = j := by
      rw [hpc] at hpc'
      exact Starter.spawning.inj hpc'
    exact ⟨hstarted, honly, hj, hpool, hpending, hlistening, hadmitted⟩
  | launching t _ hpc' honly =>
    obtain rfl : tid = t := honly.eq (by simp [hpc])
    rw [hpc] at hpc'
    cases hpc'
  | fresh _ hidle | queued _ hidle | serving _ hidle =>
    rw [hidle tid] at hpc
    cases hpc

theorem Stage.of_launching {s : Listener L} (h : Stage S s) {tid : Nat}
    (hpc : s.starters tid = .launching) :
    s.started ≠ 0 ∧ s.OnlyStarter tid ∧ s.pool = startedPool S ∧ s.pending = 0 ∧
      s.listening = false ∧ s.admitted = [] := by
  cases h with
  | launching t hstarted hpc' honly hpool hpending hlistening hadmitted =>
    obtain rfl : tid = t := honly.eq (by simp [hpc])
    exact ⟨hstarted, honly, hpool, hpending, hlistening, hadmitted⟩
  | spawning t i _ hpc' honly =>
    obtain rfl : tid = t := honly.eq (by simp [hpc])
    rw [hpc] at hpc'
    cases hpc'
  | fresh _ hidle | queued _ hidle | serving _ hidle =>
    rw [hidle tid] at hpc
    cases hpc

theorem Stage.of_listening {s : Listener L} (h : Stage S s) (hlistening : s.listening = true) :
    s.started ≠ 0 ∧ (∀ t, s.starters t = .idle) ∧
      s.pool = servingPool S s.admitted.length ∧ s.pending = 0 := by
  cases h with
  | serving hstarted hidle hpool hpending _ => exact ⟨hstarted, hidle, hpool, hpending⟩
  | fresh _ _ _ _ hnot | spawning _ _ _ _ _ _ _ _ hnot | launching _ _ _ _ _ _ hnot
  | queued _ _ _ _ hnot =>
    rw [hlistening] at hnot
    cases hnot

theorem Stage.step {s : Listener L} (h : Stage S s) (e : Label) (hwrap : s.NoWrap e) :
    Stage S (s.step S e) := by
  apply (covers S).elim h
  intro s' hstep
  cases hstep with
  | first tid hidle hzero =>
    cases h with
    | fresh _ hall hpool hpending hlistening hadmitted =>
      refine .spawning tid 0 ?_ (setStarter_self ..) ?_ (Nat.zero_le _) ?_ hpending hlistening
        hadmitted
      · simp [setStarter, hzero]
      · exact setStarter_only (fun t _ => hall t) _
      · simp [setStarter, hpool, poolAt]
    | spawning _ _ hne | launching _ hne | queued hne | serving hne => exact absurd hzero hne
  | again tid hidle hstarted => exact h.again hstarted (hwrap hidle)
  | spawn tid i hpc hlt =>
    obtain ⟨hstarted, honly, hi, hpool, hpending, hlistening, hadmitted⟩ := h.of_spawning hpc
    refine .spawning tid (i + 1) hstarted (setStarter_self ..) (setStarter_only honly _) ?_ ?_
      hpending hlistening hadmitted
    · omega
    · simp [setStarter, hpool, poolAt_succ]
  | spawned tid i hpc hge =>
    obtain ⟨hstarted, honly, hi, hpool, hpending, hlistening, hadmitted⟩ := h.of_spawning hpc
    obtain rfl : i = S.numThreads.toNat := by omega
    refine .launching tid hstarted (setStarter_self ..) (setStarter_only honly _) ?_ hpending
      hlistening hadmitted
    simp [setStarter, hpool, finishPool_poolAt]
  | listenAtOnce tid hpc =>
    obtain ⟨hstarted, honly, hpool, hpending, _, hadmitted⟩ := h.of_launching hpc
    refine .serving hstarted honly.leave ?_ hpending rfl
    simp [setStarter, Listener.listen, hpool, hadmitted, servingPool, EventLoopThreadPool.calls]
  | queueListen tid hpc =>
    obtain ⟨hstarted, honly, hpool, hpending, hlistening, hadmitted⟩ := h.of_launching hpc
    refine .queued hstarted honly.leave hpool ?_ hlistening hadmitted
    simp [setStarter, hpending]
  | listen hpending =>
    cases h with
    | queued hstarted hidle hpool hone _ hadmitted =>
      refine .serving hstarted hidle ?_ ?_ rfl
      · simp [Listener.listen, hpool, hadmitted, servingPool, EventLoopThreadPool.calls]
      · simp [Listener.listen, hone]
    | fresh _ _ _ hnone | spawning _ _ _ _ _ _ _ hnone | launching _ _ _ _ _ hnone
    | serving _ _ _ hnone => omega
  | arrive peer hlistening =>
    obtain ⟨hstarted, hidle, hpool, hpending⟩ := h.of_listening hlistening
    exact .serving hstarted hidle hpool hpending hlistening
  | accept peer rest hbacklog hlistening =>
    obtain ⟨hstarted, hidle, hpool, hpending⟩ := h.of_listening hlistening
    refine .serving hstarted hidle ?_ hpending hlistening
    simp only [newConnection, List.length_append, List.length_singleton]
    rw [hpool, getNextLoop_servingPool]

theorem init_stage : Stage S (init S) := .fresh rfl (fun _ => rfl) rfl rfl rfl rfl

/-! ## The clients -/

variable (S) in
/-- The loop of the client with index `i`. -/
def turn (i : Nat) : L :=
  if S.numThreads.toNat = 0 then S.storage else S.startLoop (i % S.numThreads.toNat)

theorem startedPool_loops :
    (startedPool S).loops = (List.range S.numThreads.toNat).map S.startLoop := by
  simp only [startedPool, EventLoopThreadPool.start, EventLoopThreadPool.startThreads_eq]
  split
  · rfl
  · rfl

theorem startedPool_baseLoop : (startedPool S).baseLoop = S.storage := by
  simp only [startedPool, EventLoopThreadPool.start, EventLoopThreadPool.startThreads_eq]
  split
  · rfl
  · rfl

theorem startedPool_next : (startedPool S).next = 0 := by
  simp only [startedPool, EventLoopThreadPool.start, EventLoopThreadPool.startThreads_eq]
  split
  · rfl
  · rfl

theorem servingPool_loops (m : Nat) : (servingPool S m).loops = (startedPool S).loops := by
  rcases Nat.eq_zero_or_pos (startedPool S).loops.length with hzero | hpos
  · rw [servingPool, EventLoopThreadPool.calls_of_empty (List.eq_nil_of_length_eq_zero hzero)]
  · rw [servingPool, EventLoopThreadPool.calls_of_pos hpos startedPool_next]

theorem getNextLoop_turn (m : Nat) : (servingPool S m).getNextLoop.1 = some (turn S m) := by
  have hlength : (startedPool S).loops.length = S.numThreads.toNat := by
    rw [startedPool_loops, List.length_map, List.length_range]
  rcases Nat.eq_zero_or_pos S.numThreads.toNat with hzero | hpos
  · have hempty := List.eq_nil_of_length_eq_zero (hlength.trans hzero)
    rw [servingPool, EventLoopThreadPool.calls_of_empty hempty,
      EventLoopThreadPool.getNextLoop_empty hempty, startedPool_baseLoop, turn, if_pos hzero]
  · have hlt : m % S.numThreads.toNat < S.numThreads.toNat := Nat.mod_lt m hpos
    have hloops : 0 < (startedPool S).loops.length := hlength.symm ▸ hpos
    have hserving : 0 < (servingPool S m).loops.length := by rwa [servingPool_loops]
    rw [EventLoopThreadPool.getNextLoop_pos hserving, turn, if_neg (Nat.ne_of_gt hpos),
      servingPool, EventLoopThreadPool.calls_of_pos hloops startedPool_next]
    simp only [hlength]
    rw [startedPool_loops, List.getElem?_map, List.getElem?_range hlt]
    rfl

/-- The clients that have arrived, in order. -/
def clients (s : Listener L) : List InetAddress := s.admitted.map (·.peer) ++ s.backlog

/-- The client that arrives in a step. -/
def arrivals (s : Listener L) : Label → List InetAddress
  | .arrive peer => if s.listening then [peer] else []
  | _ => []

variable (S) in
/-- The admission of client number `i + 1`. -/
def admission (i : Nat) (peer : InetAddress) : Admission L :=
  ⟨peer, some (turn S i), connName S.name S.listenAddr.toIpPort (i + 1)⟩

variable (S) in
/-- The numbers and loops given out so far. -/
structure Numbered (s : Listener L) : Prop where
  counter : s.nextConnId = s.admitted.length + 1
  turns : s.admitted = (s.admitted.map (·.peer)).mapIdx (admission S)

theorem Numbered.accept {s : Listener L} (h : Numbered S s) (peer : InetAddress)
    (rest : List InetAddress) (hpool : s.pool = servingPool S s.admitted.length) :
    Numbered S ({ s with backlog := rest }.newConnection S peer) := by
  constructor
  · simp [newConnection, h.counter]
  · have hnew : (⟨peer, s.pool.getNextLoop.1,
        connName S.name S.listenAddr.toIpPort s.nextConnId⟩ : Admission L) =
          admission S s.admitted.length peer := by
      rw [hpool, getNextLoop_turn, h.counter]
      rfl
    simp only [newConnection, hnew, List.map_append, List.map_cons, List.map_nil]
    rw [List.mapIdx_concat, List.length_map, ← h.turns]
    rfl

theorem Numbered.step {s : Listener L} (h : Numbered S s) (hstage : Stage S s) (e : Label) :
    Numbered S (s.step S e) := by
  apply (covers S).elim h
  intro s' hstep
  cases hstep with
  | accept peer rest hbacklog hlistening =>
    exact h.accept peer rest (hstage.of_listening hlistening).2.2.1
  | _ => exact ⟨h.counter, h.turns⟩

/-- Clients come to the end of the queue, and leave it from the front. -/
theorem clients_step (s : Listener L) (e : Label) :
    (s.step S e).clients = s.clients ++ s.arrivals e := by
  cases e with
  | arrive peer =>
    simp only [step, arrivals]
    split
    · simp [clients]
    · simp
  | handleRead ok =>
    simp only [step, arrivals, List.append_nil]
    split
    · rename_i peer rest hbacklog
      split
      · simp [clients, newConnection, hbacklog]
      · rfl
    · rfl
  | start tid =>
    simp only [step, start, arrivals, List.append_nil]
    split
    · split <;> rfl
    · rfl
  | spawn tid =>
    simp only [step, arrivals, List.append_nil]
    split
    · split <;> rfl
    · rfl
  | runInLoop tid =>
    simp only [step, arrivals, List.append_nil]
    split
    · split <;> rfl
    · rfl
  | listen =>
    simp only [step, arrivals, List.append_nil]
    split <;> rfl

variable (S) in
/-- One thread at a time starts the server; by the time the acceptor listens no
thread does any more and all the loops are there; and the clients admitted so
far have had the loops in turn, and the numbers from 1 on. -/
structure InTurn (s : Listener L) : Prop where
  one : ∀ t t', s.starters t ≠ .idle → s.starters t' ≠ .idle → t = t'
  ready : s.listening = true → (∀ t, s.starters t = .idle) ∧
    s.pool.loops = (List.range S.numThreads.toNat).map S.startLoop
  turns : s.admitted = (s.admitted.map (·.peer)).mapIdx (admission S)

theorem Stage.inTurn {s : Listener L} (h : Stage S s) (hnumbered : Numbered S s) :
    InTurn S s where
  one t t' ht ht' := by
    cases h with
    | spawning tid i _ _ honly => exact (honly.eq ht).trans (honly.eq ht').symm
    | launching tid _ _ honly => exact (honly.eq ht).trans (honly.eq ht').symm
    | fresh _ hidle | queued _ hidle | serving _ hidle => exact absurd (hidle t) ht
  ready hlistening := by
    obtain ⟨_, hidle, hpool, _⟩ := h.of_listening hlistening
    refine ⟨hidle, ?_⟩
    rw [hpool, servingPool_loops, startedPool_loops]
  turns := hnumbered.turns

/-- Whichever threads call `start`, and however clients arrive: as long as `started_` does
not wrap round, one thread starts the server, and the loops serve the clients in turn, in
the order of their arrival. -/
theorem served_in_turn (S : ServerSetup L) (es : List Label)
    (h : EachStep (step S) (init S) NoWrap es) :
    Always (step S) (init S) (InTurn S) es ∧
      (run (step S) (init S) es).clients = collect (step S) arrivals (init S) es := by
  constructor
  · have hinv : Always (step S) (init S) (fun s => Stage S s ∧ Numbered S s) es := by
      refine always_of_eachStep ⟨init_stage, rfl, rfl⟩ ?_ h
      intro s e hs hwrap
      exact ⟨hs.1.step e hwrap, hs.2.step hs.1 e⟩
    exact hinv.mono fun _ hs => hs.1.inTurn hs.2
  · have hempty : (init S).clients = [] := rfl
    have hlog : (run (step S) (init S) es).clients =
        (init S).clients ++ collect (step S) arrivals (init S) es :=
      log_run (fun _ => True) (fun _ _ _ => trivial) (fun s e _ => clients_step s e) trivial es
    rw [hlog, hempty, List.nil_append]

/-- Two threads start a server with two loops, and two of three clients have been
admitted. -/
def twoStarters : List Label :=
  [.start 1, .spawn 1, .start 2, .spawn 1, .spawn 1, .runInLoop 1, .listen,
    .arrive ⟨fun _ => 1#8, 1#16⟩, .arrive ⟨fun _ => 2#8, 2#16⟩, .handleRead true,
    .handleRead false, .arrive ⟨fun _ => 3#8, 3#16⟩, .handleRead true]

def twoLoops : ServerSetup Nat where
  name := ['e']
  listenAddr := ⟨fun _ => 0#8, 80#16⟩
  baseLoop := 0
  baseThread := 0
  storage := 0
  numThreads := 2
  threadInitCallback := false
  startLoop := fun i => i + 1

theorem served_in_turn_two :
    Always (step twoLoops) (init twoLoops) (InTurn twoLoops) twoStarters ∧
      (run (step twoLoops) (init twoLoops) twoStarters).clients =
        collect (step twoLoops) arrivals (init twoLoops) twoStarters :=
  served_in_turn twoLoops twoStarters (by decide)

end Listener

end EchoServer
