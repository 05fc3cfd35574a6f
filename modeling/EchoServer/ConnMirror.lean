import EchoServer.ConnSteps

/-!
# A world for each connection

A server is many connections in several loops, and `World` is one connection with
its loop. A world mirrors what a server shows of a connection.

* `Mirrors`: a world stands where the view of the connection does;
* `Follows`: what the connection did, its world can do in some steps of its own; one
  lemma for each kind of step, and `Mirrors.seen` for all of them;
* `Newborn`: a connection that waits for its `connectEstablished`, with which
  `Newborn.seen` begins its world.
-/

namespace EchoServer

open Runs Trace

namespace Server

variable {k : Nat}

/-! ## A world for a connection -/

/-- The world stands where the view does. A `connectDestroyed` that was queued before
the world began is still to come first. -/
structure Mirrors (v : View) (running : Prop) (w : World) : Prop where
  tcp : w.conn.tcp = v.tcp
  pc : w.pc = v.pc
  steady : w.destroying = none
  batch : ∃ n, v.batch = List.replicate n .connectDestroyed ++ w.batch
  pending : running → ∃ n, v.pending = List.replicate n .connectDestroyed ++ w.pending
  threads : w.threads = v.threads

/-- The world can take steps in which the connection does `t`, and which lead to the
view. -/
def Follows (w : World) (t : List Effect) (v : View) (running : Prop) : Prop :=
  ∃ es, Mirrors v running (run World.step w es) ∧
    (run World.step w es).conn.trace = w.conn.trace ++ t

section Worlds

variable {v : View} {running : Prop} {w : World}

theorem Mirrors.weaken {running' : Prop} (h : Mirrors v running w)
    (hrun : running' → running) : Mirrors v running' w :=
  { h with pending := fun hr => h.pending (hrun hr) }

theorem Mirrors.follows (h : Mirrors v running w) : Follows w [] v running :=
  ⟨[], h, by simp⟩

theorem follows_of_step {e : World.Label} {w' : World} {t : List Effect} (hstep : w.step e = w')
    (h : Mirrors v running w') (htrace : w'.conn.trace = w.conn.trace ++ t) :
    Follows w t v running := by
  subst hstep
  exact ⟨[e], h, htrace⟩

theorem follows_of_run (es : List World.Label) {w' : World} {t : List Effect}
    (hrun : run World.step w es = w') (htrace : w'.conn.trace = w.conn.trace)
    (h : Follows w' t v running) : Follows w t v running := by
  obtain ⟨fs, hmirrors, hfs⟩ := h
  subst hrun
  refine ⟨es ++ fs, ?_, ?_⟩
  · rw [run_append]
    exact hmirrors
  · rw [run_append, hfs, htrace]

/-- A part of the view other than connection and queues. -/
theorem Mirrors.setPc (h : Mirrors v running w) (pc : LoopPc) :
    Mirrors { v with pc := pc } running { w with pc := pc } :=
  ⟨h.tcp, rfl, h.steady, h.batch, h.pending, h.threads⟩

theorem Mirrors.setMem (h : Mirrors v running w) (mem : Nat → Byte) :
    Mirrors v running { w with mem := mem } :=
  ⟨h.tcp, h.pc, h.steady, h.batch, h.pending, h.threads⟩

theorem Mirrors.setThread (h : Mirrors v running w) (tid : Nat) (pc : ThreadPc) :
    Mirrors { v with threads := Function.update v.threads tid pc } running
      (w.setThread tid pc) := by
  refine ⟨h.tcp, h.pc, h.steady, h.batch, h.pending, ?_⟩
  change Function.update w.threads tid pc = _
  rw [h.threads]

theorem Mirrors.push (h : Mirrors v running w) (f : Functor) :
    Mirrors { v with pending := v.pending ++ [f] } running (w.push f) := by
  refine ⟨h.tcp, h.pc, h.steady, h.batch, ?_, h.threads⟩
  intro hr
  obtain ⟨n, hn⟩ := h.pending hr
  exact ⟨n, by simp only [hn, World.push_pending, List.append_assoc]⟩

/-- An operation does to the world's connection what it does to the server's. -/
theorem Mirrors.trace_eq (h : Mirrors v running w) {op : Conn → Conn} (hop : Conn.OwnOp op)
    {c : Conn} (htcp : c.tcp = v.tcp) (hnil : c.trace = []) :
    Conn.Alike w.conn.trace (op c) (op w.conn) := by
  apply hop.uniform
  refine ⟨h.tcp.trans htcp.symm, ?_⟩
  rw [hnil, List.append_nil]

theorem Mirrors.withConn (h : Mirrors v running w) {op : Conn → Conn} (hop : Conn.OwnOp op)
    {c : Conn} (htcp : c.tcp = v.tcp) (hnil : c.trace = []) :
    Mirrors { v with
        tcp := (op c).tcp
        pending := v.pending ++ World.queuedFunctors (op c).trace } running
      (w.withConn (op w.conn)) := by
  have halike := h.trace_eq hop htcp hnil
  refine ⟨halike.tcp, h.pc, h.steady, h.batch, ?_, h.threads⟩
  intro hr
  obtain ⟨n, hn⟩ := h.pending hr
  refine ⟨n, ?_⟩
  simp only [World.withConn, halike.trace, List.drop_left, hn, List.append_assoc]

/-! ## Memory -/

/-- Somebody writes `bytes` to memory. -/
def stores (data : Nat) : List Byte → List World.Label
  | [] => []
  | b :: bytes => .store data b :: stores (data + 1) bytes

theorem run_stores (w : World) (data : Nat) (bytes : List Byte) :
    ∃ mem, run World.step w (stores data bytes) = { w with mem := mem } ∧
      (∀ i (h : i < bytes.length), mem (data + i) = bytes[i]) ∧
      ∀ addr, addr < data → mem addr = w.mem addr := by
  induction bytes generalizing w data with
  | nil => exact ⟨w.mem, rfl, by simp, fun _ _ => rfl⟩
  | cons b bytes ih =>
    obtain ⟨mem, hrun, hbytes, hbelow⟩ := ih (w.step (.store data b)) (data + 1)
    refine ⟨mem, hrun, ?_, ?_⟩
    · intro i hi
      cases i with
      | zero =>
        have hfirst := hbelow data (Nat.lt_succ_self data)
        simpa [World.step] using hfirst
      | succ i =>
        have hnext := hbytes i (Nat.lt_of_succ_lt_succ hi)
        rw [Nat.add_assoc, Nat.add_comm 1 i] at hnext
        exact hnext
    · intro addr haddr
      rw [hbelow addr (Nat.lt_succ_of_lt haddr)]
      exact Function.update_of_ne (Nat.ne_of_lt haddr) _ _

/-- Before a step the memory can be brought to hold the bytes it reads. -/
theorem exists_stores (w : World) (data : Nat) (bytes : List Byte) :
    ∃ mem es, run World.step w es = { w with mem := mem } ∧
      World.window { w with mem := mem } data bytes.length = bytes := by
  obtain ⟨mem, hrun, hbytes, _⟩ := run_stores w data bytes
  refine ⟨mem, stores data bytes, hrun, ?_⟩
  apply List.ext_getElem
  · simp [World.window]
  · intro i hi hi'
    simpa [World.window] using hbytes i hi'

/-! ## The steps of the loop thread -/

theorem Mirrors.poll (h : Mirrors v running w) (hinv : w.Inv) (hpc : v.pc = .polling)
    {revents : Option EventMask}
    (hreported : revents ≠ none → v.tcp.channel.index = .added) :
    Follows w [] { v with pc := .handlers revents } running := by
  have hreports : w.reports revents = true := by
    cases revents with
    | none => rfl
    | some m =>
      refine (EPollPoller.registered_iff hinv.sound.coherent).mpr ?_
      rw [h.tcp]
      exact hreported (by simp)
  refine follows_of_step (e := .loop (.poll revents)) ?_ (h.setPc _) (by simp)
  simp [World.step, World.loopStep, h.steady, h.pc, hpc, hreports]

theorem Mirrors.handle (h : Mirrors v running w) {revents : EventMask}
    (hpc : v.pc = .handlers (some revents)) :
    Follows w [] { v with pc := .handling (Conn.dispatch revents) } running := by
  refine follows_of_step (e := .loop .handle) ?_ (h.setPc _) (by simp)
  simp [World.step, World.loopStep, h.steady, h.pc, hpc]

theorem Mirrors.handled (h : Mirrors v running w) (hpc : v.pc = .handling []) :
    Follows w [] { v with pc := .handlers none } running := by
  refine follows_of_step (e := .loop .handled) ?_ (h.setPc _) (by simp)
  simp [World.step, World.loopStep, h.steady, h.pc, hpc]

theorem Mirrors.userCall (h : Mirrors v running w) (hpc : v.pc ≠ .polling) (u : UserCall)
    {c : Conn} (htcp : c.tcp = v.tcp) (hnil : c.trace = []) :
    Follows w (c.userCall u).trace
      { v with
        tcp := (c.userCall u).tcp
        pending := v.pending ++ World.queuedFunctors (c.userCall u).trace } running := by
  have hop := Conn.userCall_ownOp u
  refine follows_of_step (e := .loop (.userCall u)) ?_ (h.withConn hop htcp hnil)
    (h.trace_eq hop htcp hnil).trace
  simp [World.step, World.loopStep, h.steady, h.pc, hpc]

/-- The queue is that of the server in a loop that runs. -/
theorem Mirrors.swap (h : Mirrors v running w) (hr : running) (hpc : v.pc = .handlers none) :
    Follows w [] { v with pc := .functors, batch := v.pending, pending := [] } running := by
  have hmirrors : Mirrors { v with pc := .functors, batch := v.pending, pending := [] } running
      { w with pc := .functors, batch := w.pending, pending := [] } :=
    ⟨h.tcp, rfl, h.steady, h.pending hr, fun _ => ⟨0, rfl⟩, h.threads⟩
  refine follows_of_step (e := .loop .swap) ?_ hmirrors (by simp)
  simp [World.step, World.loopStep, h.steady, h.pc, hpc]

theorem Mirrors.endFunctors (h : Mirrors v running w) (hpc : v.pc = .functors)
    (hbatch : v.batch = []) : Follows w [] { v with pc := .polling } running := by
  have hempty : w.batch = [] := by
    obtain ⟨n, hn⟩ := h.batch
    rw [hbatch] at hn
    exact (List.append_eq_nil_iff.mp hn.symm).2
  refine follows_of_step (e := .loop .endFunctors) ?_ (h.setPc _) (by simp)
  simp [World.step, World.loopStep, h.steady, h.pc, hpc, hempty]

/-- A callback of the channel; `closeCallback_`, which it calls last, may queue
`connectDestroyed`. -/
theorem Mirrors.part (h : Mirrors v running w) {p : Conn.Part} {rest : List Conn.Part}
    (hpc : v.pc = .handling (p :: rest)) (a : Conn.Answers) {c : Conn} (htcp : c.tcp = v.tcp)
    (hnil : c.trace = []) (ℓ : Fin (k + 1)) :
    Follows w (c.runPart p a).trace
      { v with
        tcp := (c.runPart p a).tcp
        pc := .handling rest
        pending := v.pending ++ handed ℓ (c.runPart p a).trace } running := by
  have hop := Conn.runPart_ownOp p a
  have htrace := (h.trace_eq hop htcp hnil).trace
  have hmirrors := (h.withConn hop htcp hnil).setPc (.handling rest)
  have hstep : w.step (.loop (.part a)) =
      { w.withConn (w.conn.runPart p a) with pc := .handling rest } := by
    simp [World.step, World.loopStep, h.steady, h.pc, hpc]
  have hsame : handed ℓ (c.runPart p a).trace = World.queuedFunctors (c.runPart p a).trace →
      Follows w (c.runPart p a).trace
        { v with
          tcp := (c.runPart p a).tcp
          pc := .handling rest
          pending := v.pending ++ handed ℓ (c.runPart p a).trace } running := by
    intro heq
    rw [heq]
    exact follows_of_step hstep hmirrors htrace
  rcases Conn.runPart_closesLast c p a with hstays | ⟨d, hstays, hclosed⟩
  · exact hsame (handed_of_open (hstays.not_mem hnil))
  · have hqueued : World.queuedFunctors (c.runPart p a).trace =
        World.queuedFunctors d.trace := by
      rw [hclosed]
      simp [World.queuedFunctors]
    have hhanded : handed ℓ (c.runPart p a).trace =
        World.queuedFunctors d.trace ++ handed ℓ [.closeCallback] := by
      rw [hclosed, handed, List.flatMap_append, ← handed, ← handed,
        handed_of_open (hstays.not_mem hnil)]
    by_cases hbase : ℓ = baseLoop
    · -- the functor comes after all others
      have hlast : handed ℓ [.closeCallback] = [.connectDestroyed] := by
        simp [handed, hbase]
      refine ⟨[.loop (.part a), .queueDestroyed], ?_, ?_⟩
      · have hpush := hmirrors.push .connectDestroyed
        rw [run_cons, hstep, hhanded, hlast, ← List.append_assoc, ← hqueued]
        exact hpush
      · rw [run_cons, hstep]
        exact htrace
    · apply hsame
      rw [hhanded, hqueued]
      simp [handed, hbase]

/-! ## Functors -/

theorem Mirrors.head (h : Mirrors v running w) {f : Functor} {rest : List Functor}
    (hbatch : v.batch = f :: rest) (hne : f ≠ .connectDestroyed) : w.batch = f :: rest := by
  obtain ⟨n, hn⟩ := h.batch
  rw [hbatch] at hn
  cases n with
  | zero => exact hn.symm
  | succ n =>
    rw [List.replicate_succ, List.cons_append] at hn
    exact absurd (List.cons.inj hn).1 hne

theorem Mirrors.pop (h : Mirrors v running w) (rest : List Functor) :
    Mirrors { v with batch := rest } running { w with batch := rest } :=
  ⟨h.tcp, h.pc, h.steady, ⟨0, rfl⟩, h.pending, h.threads⟩

theorem step_functor (hsteady : w.destroying = none) (hpc : w.pc = .functors) {f : Functor}
    {rest : List Functor} (hbatch : w.batch = f :: rest) (a : Conn.Answers) :
    w.step (.loop (.functor a)) = { w with batch := rest }.execute f a := by
  simp [World.step, World.loopStep, World.runFunctor, hsteady, hpc, hbatch]

theorem Mirrors.sendInLoop (h : Mirrors v running w) (hpc : v.pc = .functors)
    {buf : SentString} {rest : List Functor} (hbatch : v.batch = .sendInLoop buf :: rest)
    (mem : Nat → Byte) (a : Conn.Answers) {c : Conn} (htcp : c.tcp = v.tcp)
    (hnil : c.trace = []) :
    Follows w (c.sendInLoop (readString mem buf) a.write).trace
      { v with
        tcp := (c.sendInLoop (readString mem buf) a.write).tcp
        batch := rest
        pending := v.pending ++
          World.queuedFunctors (c.sendInLoop (readString mem buf) a.write).trace } running := by
  have hop := Conn.sendInLoop_ownOp (readString mem buf) a.write
  obtain ⟨mem', es, hrun, hwindow⟩ := exists_stores w buf.data (readString mem buf)
  have hlen : (readString mem buf).length = buf.len := by
    simp [readString]
  rw [hlen] at hwindow
  have hpop := (h.setMem mem').pop rest
  have hfollows := follows_of_step (w := { w with mem := mem' }) (e := .loop (.functor a)) ?_
    (hpop.withConn hop htcp hnil) (hpop.trace_eq hop htcp hnil).trace
  · exact follows_of_run es hrun rfl hfollows
  · have hstep := step_functor (w := { w with mem := mem' }) h.steady (h.pc.trans hpc)
      (h.head hbatch (by simp)) a
    rw [hstep, World.execute]
    have hread : World.window { w with mem := mem', batch := rest } buf.data buf.len =
        readString mem buf := hwindow
    rw [hread]

theorem Mirrors.shutdownInLoop (h : Mirrors v running w) (hpc : v.pc = .functors)
    {rest : List Functor} (hbatch : v.batch = .shutdownInLoop :: rest) (a : Conn.Answers)
    {c : Conn} (htcp : c.tcp = v.tcp) (hnil : c.trace = []) :
    Follows w c.shutdownInLoop.trace
      { v with
        tcp := c.shutdownInLoop.tcp
        batch := rest
        pending := v.pending ++ World.queuedFunctors c.shutdownInLoop.trace } running := by
  have hop := Conn.shutdownInLoop_ownOp
  have hpop := h.pop rest
  exact follows_of_step (step_functor h.steady (h.pc.trans hpc) (h.head hbatch (by simp)) a)
    (hpop.withConn hop htcp hnil) (hpop.trace_eq hop htcp hnil).trace

/-- The functor of a callback does nothing itself. -/
theorem Mirrors.callback (h : Mirrors v running w) (hpc : v.pc = .functors) {f : Functor}
    (hf : f.IsCallback) {rest : List Functor} (hbatch : v.batch = f :: rest)
    (a : Conn.Answers) : Follows w [] { v with batch := rest } running := by
  have hhead : w.batch = f :: rest := by
    apply h.head hbatch
    rintro rfl
    exact hf
  have hstep := step_functor h.steady (h.pc.trans hpc) hhead a
  cases f with
  | writeCompleteCallback => exact follows_of_step hstep (h.pop rest) (by simp [World.execute])
  | writeCompleteMember => exact follows_of_step hstep (h.pop rest) (by simp [World.execute])
  | highWaterMarkCallback =>
    exact follows_of_step hstep (h.pop rest) (by simp [World.execute])
  | _ => exact hf.elim

theorem Mirrors.removeConnectionInLoop (h : Mirrors v running w) (hpc : v.pc = .functors)
    {rest : List Functor} (hbatch : v.batch = .removeConnectionInLoop :: rest)
    (a : Conn.Answers) :
    Follows w [] { v with batch := rest, pending := v.pending ++ [.connectDestroyed] }
      running := by
  have hpush := (h.pop rest).push .connectDestroyed
  exact follows_of_step (step_functor h.steady (h.pc.trans hpc) (h.head hbatch (by simp)) a)
    hpush (by simp [World.execute])

/-- `connectDestroyed` makes its test, and the rest follows at once. -/
theorem Mirrors.destroyRest (h : Mirrors v running w) (us : List UserCall) {c : Conn}
    (htcp : c.tcp = v.tcp) (hnil : c.trace = []) :
    Follows w.testConnected (c.connectDestroyed us).trace
      { v with
        tcp := (c.connectDestroyed us).tcp
        pending := v.pending ++ World.queuedFunctors (c.connectDestroyed us).trace } running := by
  have hop := Conn.connectDestroyed_ownOp us
  have hmirrors : Mirrors _ running
      { w.withConn (w.conn.connectDestroyed us) with destroying := none } :=
    { h.withConn hop htcp hnil with steady := rfl }
  refine follows_of_step (e := .destroyRest us) ?_ hmirrors
    (h.trace_eq hop htcp hnil).trace
  rfl

/-- `connectDestroyed`, called by a `~TcpServer` in the loop's own thread. -/
theorem Mirrors.connectDestroyed (h : Mirrors v running w)
    (hpc : v.pc = .polling ∨ v.pc = .functors) (us : List UserCall) {c : Conn}
    (htcp : c.tcp = v.tcp) (hnil : c.trace = []) :
    Follows w (c.connectDestroyed us).trace
      { v with
        tcp := (c.connectDestroyed us).tcp
        pending := v.pending ++ World.queuedFunctors (c.connectDestroyed us).trace } running := by
  have hrest := h.destroyRest us htcp hnil
  have hrun : run World.step w [.loop .connectDestroyed] = w.testConnected := by
    simp [World.step, World.loopStep, h.steady, h.pc, hpc]
  exact follows_of_run [.loop .connectDestroyed] hrun rfl hrest

/-- The functor of `connectDestroyed`, queued in the world or before it began. -/
theorem Mirrors.destroyFunctor (h : Mirrors v running w) (hpc : v.pc = .functors)
    {rest : List Functor} (hbatch : v.batch = .connectDestroyed :: rest) (a : Conn.Answers)
    {c : Conn} (htcp : c.tcp = v.tcp) (hnil : c.trace = []) :
    Follows w (c.connectDestroyed a.onConnection).trace
      { v with
        tcp := (c.connectDestroyed a.onConnection).tcp
        batch := rest
        pending := v.pending ++
          World.queuedFunctors (c.connectDestroyed a.onConnection).trace } running := by
  obtain ⟨n, hn⟩ := h.batch
  cases n with
  | zero =>
    have hhead : w.batch = .connectDestroyed :: rest := by
      rw [hbatch] at hn
      exact hn.symm
    have hrest := (h.pop rest).destroyRest a.onConnection htcp hnil
    have hrun : run World.step w [.loop (.functor a)]
        = World.testConnected { w with batch := rest } :=
      step_functor h.steady (h.pc.trans hpc) hhead a
    exact follows_of_run [.loop (.functor a)] hrun rfl hrest
  | succ n =>
    -- the world does not have it queued
    have hleft : rest = List.replicate n .connectDestroyed ++ w.batch := by
      rw [hbatch, List.replicate_succ, List.cons_append] at hn
      exact (List.cons.inj hn).2
    have hmirrors : Mirrors { v with batch := rest } running w :=
      { h with batch := ⟨n, hleft⟩ }
    exact hmirrors.connectDestroyed (Or.inr hpc) a.onConnection htcp hnil

/-! ## The steps of other threads -/

theorem Mirrors.queueDestroyed (h : Mirrors v running w) :
    Follows w [] { v with pending := v.pending ++ [.connectDestroyed] } running :=
  follows_of_step (e := .queueDestroyed) rfl (h.push .connectDestroyed) (by simp [World.step])

theorem Mirrors.send (h : Mirrors v running w) {tid : Nat} (hidle : v.threads tid = .idle)
    (hstate : v.tcp.state = .kConnected) {buf : SentString}
    (hlen : buf.content.length = buf.len) :
    Follows w [] { v with threads := Function.update v.threads tid (.sendAccepted buf) }
      running := by
  obtain ⟨mem, es, hrun, hwindow⟩ := exists_stores w buf.data buf.content
  rw [hlen] at hwindow
  have hset := (h.setMem mem).setThread tid (.sendAccepted buf)
  have hfollows := follows_of_step (w := { w with mem := mem })
    (e := .send tid buf.data buf.len) (t := []) ?_ hset (by simp)
  · exact follows_of_run es hrun rfl hfollows
  · have hidle' : w.threads tid = .idle := by
      rw [h.threads, hidle]
    have hstate' : w.conn.tcp.state = .kConnected := by
      rw [h.tcp, hstate]
    simp [World.step, hidle', hstate', hwindow]

theorem Mirrors.sendQueue (h : Mirrors v running w) {tid : Nat} {buf : SentString}
    (hpc : v.threads tid = .sendAccepted buf) :
    Follows w [] { v with
        pending := v.pending ++ [.sendInLoop buf]
        threads := Function.update v.threads tid .idle } running := by
  have hset := (h.push (.sendInLoop buf)).setThread tid .idle
  refine follows_of_step (e := .sendQueue tid) ?_ hset (by simp)
  rw [← h.threads] at hpc
  simp [World.step, hpc]

theorem Mirrors.shutdown (h : Mirrors v running w) {tid : Nat} (hidle : v.threads tid = .idle)
    (hstate : v.tcp.state = .kConnected) :
    Follows w [] { v with threads := Function.update v.threads tid .shutdownChecked }
      running := by
  refine follows_of_step (e := .shutdown tid) ?_ (h.setThread tid _) (by simp)
  rw [← h.threads] at hidle
  rw [← h.tcp] at hstate
  simp [World.step, hidle, hstate]

theorem Mirrors.shutdownStore (h : Mirrors v running w) {tid : Nat}
    (hpc : v.threads tid = .shutdownChecked) :
    Follows w [.setState .kDisconnecting] { v with
        tcp := { v.tcp with state := .kDisconnecting }
        threads := Function.update v.threads tid .shutdownStored } running := by
  have hmirrors : Mirrors { v with tcp := { v.tcp with state := .kDisconnecting } } running
      { w with conn := w.conn.setState .kDisconnecting } := by
    refine ⟨?_, h.pc, h.steady, h.batch, h.pending, h.threads⟩
    simp only [Conn.setState, h.tcp]
  refine follows_of_step (e := .shutdownStore tid) ?_ (hmirrors.setThread tid _) (by simp)
  rw [← h.threads] at hpc
  simp [World.step, hpc]

theorem Mirrors.shutdownQueue (h : Mirrors v running w) {tid : Nat}
    (hpc : v.threads tid = .shutdownStored) :
    Follows w [] { v with
        pending := v.pending ++ [.shutdownInLoop]
        threads := Function.update v.threads tid .idle } running := by
  have hset := (h.push .shutdownInLoop).setThread tid .idle
  refine follows_of_step (e := .shutdownQueue tid) ?_ hset (by simp)
  rw [← h.threads] at hpc
  simp [World.step, hpc]

/-! ## A world follows -/

variable {ℓ : Fin (k + 1)} {v' : View} {t : List Effect}

theorem Mirrors.seen {w : World} (h : Mirrors v running w) (hinv : w.Inv)
    (hseen : Seen ℓ running v t v') : Follows w t v' running := by
  cases hseen with
  | same => exact h.follows
  | poll revents hpc hreported => exact h.poll hinv hpc hreported
  | handle revents hpc => exact h.handle hpc
  | part p rest a c hpc htcp hnil => exact h.part hpc a htcp hnil ℓ
  | handled hpc => exact h.handled hpc
  | userCall u c hpc hstate htcp hnil => exact h.userCall hpc u htcp hnil
  | swap hr hpc hbatch => exact h.swap hr hpc
  | sendInLoop buf rest mem a c hr hpc hbatch htcp hnil =>
    exact h.sendInLoop hpc hbatch mem a htcp hnil
  | shutdownInLoop rest a c hr hpc hbatch htcp hnil =>
    exact h.shutdownInLoop hpc hbatch a htcp hnil
  | connectEstablished rest a c hr hpc hbatch htcp hnil =>
    -- a world begins after it
    have hhead := h.head hbatch (by simp)
    exact (hinv.queued .connectEstablished (by simp [hhead])).elim
  | destroyFunctor rest a c hr hpc hbatch htcp hnil =>
    exact h.destroyFunctor hpc hbatch a htcp hnil
  | removeConnectionInLoop rest a hr hpc hbatch => exact h.removeConnectionInLoop hpc hbatch a
  | callback f rest a hf hr hpc hbatch => exact h.callback hpc hf hbatch a
  | endFunctors hpc hbatch => exact h.endFunctors hpc hbatch
  | connectDestroyed us c hbase hpc htcp hnil => exact h.connectDestroyed hpc us htcp hnil
  | queueDestroyed => exact h.queueDestroyed
  | dropped hr =>
    refine Mirrors.follows ?_
    exact ⟨h.tcp, h.pc, h.steady, h.batch, fun hr' => absurd hr' hr, h.threads⟩
  | send tid buf hidle hstate hlen => exact h.send hidle hstate hlen
  | sendQueue tid buf hpc => exact h.sendQueue hpc
  | shutdown tid hidle hstate => exact h.shutdown hidle hstate
  | shutdownStore tid hpc => exact h.shutdownStore hpc
  | shutdownQueue tid hpc => exact h.shutdownQueue hpc

/-- Some world has come from its `connectEstablished` to the view, with the trace `t`. -/
def RunsWorld (c : ConnId) (v : View) (running : Prop) (t : List Effect) : Prop :=
  ∃ fd wc hw mark us mem es,
    Mirrors v running (run World.step (World.established c fd wc hw mark us mem) es) ∧
      (run World.step (World.established c fd wc hw mark us mem) es).conn.trace = t

theorem RunsWorld.seen {c : ConnId} {past : List Effect} (h : RunsWorld c v running past)
    (hseen : Seen ℓ running v t v') : RunsWorld c v' running (past ++ t) := by
  obtain ⟨fd, wc, hw, mark, us, mem, es, hmirrors, htrace⟩ := h
  have hinv : (run World.step (World.established c fd wc hw mark us mem) es).Inv :=
    run_invariant World.Inv (fun w e hw => hw.step e)
      (World.established_inv c fd wc hw mark us mem) es
  obtain ⟨es', hmirrors', htrace'⟩ := hmirrors.seen hinv hseen
  refine ⟨fd, wc, hw, mark, us, mem, es ++ es', ?_, ?_⟩
  · rw [run_append]
    exact hmirrors'
  · rw [run_append, htrace', htrace]

/-! ## Before the world begins -/

/-- A connection of another loop, which `newConnection` has handed over and whose
`connectEstablished` is the first functor in its queue. -/
structure Newborn (c : ConnId) (ℓ : Fin (k + 1)) (v : View) (running : Prop) : Prop where
  loop : ℓ ≠ baseLoop
  tcp : ∃ fd wc hw mark, v.tcp = TcpConnection.new c fd wc hw mark
  pc : v.pc = .polling ∨ v.pc = .handlers none ∨ v.pc = .functors
  queue : running → ∃ n, v.batch ++ v.pending =
    .connectEstablished :: List.replicate n .connectDestroyed
  threads : ∀ tid, v.threads tid = .idle

theorem Newborn.state {c : ConnId} (h : Newborn c ℓ v running) : v.tcp.state = .kConnecting := by
  obtain ⟨fd, wc, hw, mark, htcp⟩ := h.tcp
  rw [htcp]
  rfl

theorem Newborn.weaken {c : ConnId} {running' : Prop} (h : Newborn c ℓ v running)
    (hrun : running' → running) : Newborn c ℓ v running' :=
  { h with queue := fun hr => h.queue (hrun hr) }

/-- What comes after `connectEstablished` is `connectDestroyed`. -/
theorem Newborn.head {c : ConnId} (h : Newborn c ℓ v running) (hr : running) {f : Functor}
    {rest : List Functor} (hbatch : v.batch = f :: rest) :
    f = .connectEstablished ∧ (∃ n, rest = List.replicate n .connectDestroyed) ∧
      ∃ n, v.pending = List.replicate n .connectDestroyed := by
  obtain ⟨n, hn⟩ := h.queue hr
  rw [hbatch, List.cons_append] at hn
  obtain ⟨hf, hrest⟩ := List.cons.inj hn
  obtain ⟨_, hfirst, hsecond⟩ := List.append_eq_replicate_iff.mp hrest
  exact ⟨hf, ⟨_, hfirst⟩, ⟨_, hsecond⟩⟩

/-- Where no functor but `connectEstablished` can be executed. -/
theorem Newborn.absurd_head {c : ConnId} (h : Newborn c ℓ v running) (hr : running)
    {f : Functor} {rest : List Functor} (hbatch : v.batch = f :: rest)
    (hne : f ≠ .connectEstablished) {P : Prop} : P :=
  absurd (h.head hr hbatch).1 hne

/-- `connectEstablished` begins a world. -/
theorem runsWorld_of_established {c : ConnId} {fd : Nat} {wc hw : Bool} {mark : Nat}
    {us : List UserCall} {n m : Nat} {d : Conn}
    (htcp : d.tcp = TcpConnection.new c fd wc hw mark) (hnil : d.trace = [])
    (hv : v'.tcp = (d.connectEstablished us).tcp) (hpc : v'.pc = .functors)
    (hbatch : v'.batch = List.replicate n .connectDestroyed)
    (hpending : v'.pending = List.replicate m .connectDestroyed ++
      World.queuedFunctors (d.connectEstablished us).trace)
    (hthreads : ∀ tid, v'.threads tid = .idle) :
    RunsWorld c v' running (d.connectEstablished us).trace := by
  have halike : Conn.Alike [] (d.connectEstablished us)
      ((Conn.new c fd wc hw mark).connectEstablished us) := by
    apply Conn.uniform_connectEstablished us
    exact ⟨htcp.symm, by rw [hnil]; rfl⟩
  have htrace : ((Conn.new c fd wc hw mark).connectEstablished us).trace =
      (d.connectEstablished us).trace := halike.trace
  refine ⟨fd, wc, hw, mark, us, fun _ => 0, [], ?_, htrace⟩
  refine ⟨halike.tcp.trans hv.symm, hpc.symm, rfl, ⟨n, ?_⟩, fun _ => ⟨m, ?_⟩, ?_⟩
  · rw [hbatch]
    exact (List.append_nil _).symm
  · rw [hpending, ← htrace]
    rfl
  · funext tid
    exact (hthreads tid).symm

theorem Newborn.seen {c : ConnId} (h : Newborn c ℓ v running) (hseen : Seen ℓ running v t v') :
    Newborn c ℓ v' running ∧ t = [] ∨ RunsWorld c v' running t := by
  have hconnecting := h.state
  cases hseen with
  | same => exact Or.inl ⟨h, rfl⟩
  | poll revents hpc hreported =>
    cases revents with
    | none => exact Or.inl ⟨{ h with pc := Or.inr (Or.inl rfl) }, rfl⟩
    | some m =>
      obtain ⟨fd, wc, hw, mark, htcp⟩ := h.tcp
      have hindex := hreported (by simp)
      rw [htcp] at hindex
      cases hindex
  | handle revents hpc =>
    rcases h.pc with hpc' | hpc' | hpc'
    · rw [hpc] at hpc'
      cases hpc'
    · rw [hpc] at hpc'
      cases hpc'
    · rw [hpc] at hpc'
      cases hpc'
  | part p rest a c hpc htcp hnil =>
    rcases h.pc with hpc' | hpc' | hpc'
    · rw [hpc] at hpc'
      cases hpc'
    · rw [hpc] at hpc'
      cases hpc'
    · rw [hpc] at hpc'
      cases hpc'
  | handled hpc => exact Or.inl ⟨{ h with pc := Or.inr (Or.inl rfl) }, rfl⟩
  | userCall u c hpc hstate htcp hnil => exact absurd hconnecting hstate
  | swap hr hpc hbatch =>
    refine Or.inl ⟨{ h with pc := Or.inr (Or.inr rfl), queue := fun hr => ?_ }, rfl⟩
    obtain ⟨n, hn⟩ := h.queue hr
    rw [hbatch, List.nil_append] at hn
    exact ⟨n, by rw [List.append_nil, hn]⟩
  | sendInLoop buf rest mem a c hr hpc hbatch htcp hnil =>
    exact h.absurd_head hr hbatch (by simp)
  | shutdownInLoop rest a c hr hpc hbatch htcp hnil => exact h.absurd_head hr hbatch (by simp)
  | connectEstablished rest a d hr hpc hbatch htcp hnil =>
    obtain ⟨fd, wc, hw, mark, hnew⟩ := h.tcp
    obtain ⟨_, ⟨n, hrest⟩, m, hpending⟩ := h.head hr hbatch
    have hqueue : v.pending ++
          World.queuedFunctors (d.connectEstablished a.onConnection).trace =
        List.replicate m .connectDestroyed ++
          World.queuedFunctors (d.connectEstablished a.onConnection).trace := by
      rw [hpending]
    exact Or.inr
      (runsWorld_of_established (htcp.trans hnew) hnil rfl hpc hrest hqueue h.threads)
  | destroyFunctor rest a c hr hpc hbatch htcp hnil => exact h.absurd_head hr hbatch (by simp)
  | removeConnectionInLoop rest a hr hpc hbatch => exact h.absurd_head hr hbatch (by simp)
  | callback f rest a hf hr hpc hbatch =>
    refine h.absurd_head hr hbatch ?_
    rintro rfl
    exact hf
  | endFunctors hpc hbatch => exact Or.inl ⟨{ h with pc := Or.inl rfl }, rfl⟩
  | connectDestroyed us c hbase hpc htcp hnil => exact absurd hbase h.loop
  | queueDestroyed =>
    refine Or.inl ⟨{ h with queue := fun hr => ?_ }, rfl⟩
    obtain ⟨n, hn⟩ := h.queue hr
    refine ⟨n + 1, ?_⟩
    rw [← List.append_assoc, hn, List.cons_append, List.replicate_succ']
  | dropped hr => exact Or.inl ⟨{ h with queue := fun hr' => absurd hr' hr }, rfl⟩
  | send tid buf hidle hstate hlen =>
    rw [hconnecting] at hstate
    cases hstate
  | sendQueue tid buf hpc =>
    rw [h.threads tid] at hpc
    cases hpc
  | shutdown tid hidle hstate =>
    rw [hconnecting] at hstate
    cases hstate
  | shutdownStore tid hpc =>
    rw [h.threads tid] at hpc
    cases hpc
  | shutdownQueue tid hpc =>
    rw [h.threads tid] at hpc
    cases hpc

end Worlds

end Server

end EchoServer
