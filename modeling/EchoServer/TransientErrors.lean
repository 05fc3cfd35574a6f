import EchoServer.ServerFrames

/-!
# Transient errors

`EAGAIN` and `EINTR` say that there was nothing to read, or no room to write,
this time. `handleWrite` leaves everything as it is. `handleRead` takes every
error for the end of the connection: `handleError` logs what `SO_ERROR` says and
calls `handleClose`.

* `handleWrite_unharmed`, `handleRead_calls_back`: the two handlers;
* `transient_unharmed_iff`: over every run of a server, transient errors do no
  harm exactly where `handleRead` gets none.
-/

namespace EchoServer

open Runs

/-- `EAGAIN`, which is `EWOULDBLOCK`, and `EINTR`. -/
def Errno.Transient (e : Errno) : Prop := e = .eagain ∨ e = .eintr

instance (e : Errno) : Decidable e.Transient := by
  unfold Errno.Transient
  infer_instance

namespace Conn

/-- The system call of the handler answers with a transient error. -/
def TransientAnswer (a : Answers) : Part → Prop
  | .read => ∃ e, a.readv = .err e ∧ e.Transient
  | .write => ∃ e, a.write = .err e ∧ e.Transient
  | _ => False

/-- One of the two callbacks a connection reports its end with. -/
def CallsBack : Effect → Prop
  | .connectionCallback _ => True
  | .closeCallback => True
  | _ => False

/-- A failing `write` in `handleWrite` is only logged. -/
theorem handleWrite_err (c : Conn) (e : Errno) :
    c.handleWrite (.err e) =
      if c.isWriting then c.emit (.write c.offered (.err e)) else c := by
  have hcount : ¬ 0 < c.writeCount (.err e) := by simp [writeCount, WriteResult.toInt]
  unfold handleWrite
  rw [if_neg hcount]

theorem handleRead_calls_back {c : Conn} {a : Answers} {e : Errno} (h : a.readv = .err e) :
    .closeCallback ∈ (c.handleRead a).trace := by
  unfold handleRead
  rw [h]
  rcases handleError_eq c a.sockOpt a.onConnection with ⟨e, he⟩
  rw [he]
  simp [handleClose]

end Conn

namespace Server

variable {k : Nat}

/-- The step runs the handler `p` of connection `c`. -/
def RunsHandler (s : Server k) (e : Label k) (c : ConnId) (p : Conn.Part) (a : Conn.Answers) :
    Prop :=
  ∃ ℓ rest active, e = .loop ℓ (.part a) ∧ s.LoopFree ℓ ∧
    (s.loops ℓ).phase = .handling c (p :: rest) active

/-- Between `connectEstablished` and the end of the connection. -/
def Established (sc : ServerConn k) : Prop :=
  sc.tcp.state = .kConnected ∨ sc.tcp.state = .kDisconnecting

/-- After the handler `p` of `c` everything is as before, and nobody has been
called back. -/
structure Unharmed (s s' : Server k) (c : ConnId) (sc : ServerConn k) (p : Conn.Part)
    (a : Conn.Answers) : Prop where
  conn : s'.conns c = some sc
  poller : (s'.loops sc.loop).poller = (s.loops sc.loop).poller
  table : s'.connections = s.connections
  silent : ∀ e ∈ ((s.assemble sc).runPart p a).trace, ¬ Conn.CallsBack e

/-- A handler of an established connection that gets a transient error does no
harm. -/
def TransientUnharmed (s : Server k) (e : Label k) : Prop :=
  ∀ c sc p a, s.RunsHandler e c p a → s.conns c = some sc → Established sc →
    Conn.TransientAnswer a p → Unharmed s (s.step e) c sc p a

/-- No `handleRead` of an established connection gets a transient error. -/
def NoTransientRead (s : Server k) (e : Label k) : Prop :=
  ∀ c sc a, s.RunsHandler e c .read a → s.conns c = some sc → Established sc →
    ¬ Conn.TransientAnswer a .read

theorem step_of_runsHandler {s : Server k} {e : Label k} {c : ConnId} {p : Conn.Part}
    {a : Conn.Answers} (h : s.RunsHandler e c p a) :
    ∃ ℓ rest active, s.step e =
      (s.setPhase ℓ (.handling c rest active)).onConn c (·.runPart p a) := by
  rcases h with ⟨ℓ, rest, active, rfl, hfree, hphase⟩
  refine ⟨ℓ, rest, active, ?_⟩
  simp only [step, if_pos hfree, loopStep, hphase]

/-- An operation that only issues a `write`, or nothing. -/
theorem onConn_of_write {s : Server k} {c : ConnId} {sc : ServerConn k}
    (hconn : s.conns c = some sc) (op : Conn → Conn)
    (htcp : (op (s.assemble sc)).tcp = sc.tcp)
    (hpoller : (op (s.assemble sc)).poller = (s.loops sc.loop).poller)
    (htrace : ∀ e ∈ (op (s.assemble sc)).trace, ∃ data w, e = .write data w) :
    (s.onConn c op).conns c = some sc ∧
      ((s.onConn c op).loops sc.loop).poller = (s.loops sc.loop).poller ∧
      (s.onConn c op).connections = s.connections := by
  have hstored : s.onConn c op = s.store c sc (op (s.assemble sc)) := by
    refine onConn_eq_store hconn ?_
    intro e he t
    rcases htrace e he with ⟨data, w, rfl⟩
    rfl
  rw [hstored]
  refine ⟨?_, ?_, rfl⟩
  · rw [store_conns_self, htcp]
  · rw [store_poller_self, hpoller]

theorem handleWrite_unharmed {s : Server k} {e : Label k} {c : ConnId} {sc : ServerConn k}
    {a : Conn.Answers} {err : Errno} (hrun : s.RunsHandler e c .write a)
    (hconn : s.conns c = some sc) (hans : a.write = .err err) :
    Unharmed s (s.step e) c sc .write a := by
  have hpart : (s.assemble sc).runPart .write a =
      if (s.assemble sc).isWriting then
        (s.assemble sc).emit (.write (s.assemble sc).offered (.err err))
      else s.assemble sc := by
    rw [Conn.runPart, hans, Conn.handleWrite_err]
  have htrace : ∀ x ∈ ((s.assemble sc).runPart .write a).trace, ∃ data w, x = .write data w := by
    intro x hx
    rw [hpart] at hx
    split at hx
    · exact ⟨_, _, by simpa [assemble] using hx⟩
    · simp [assemble] at hx
  have htcp : ((s.assemble sc).runPart .write a).tcp = sc.tcp := by
    rw [hpart]
    split <;> rfl
  have hpoller : ((s.assemble sc).runPart .write a).poller = (s.loops sc.loop).poller := by
    rw [hpart]
    split <;> rfl
  rcases step_of_runsHandler hrun with ⟨ℓ, rest, active, hstep⟩
  rcases onConn_of_write (s := s.setPhase ℓ (.handling c rest active)) hconn
    (·.runPart .write a) (by rw [setPhase_assemble, htcp])
    (by rw [setPhase_assemble, hpoller, setPhase_poller])
    (by rw [setPhase_assemble]; exact htrace) with ⟨hkept, hsame, htable⟩
  rw [hstep]
  refine ⟨hkept, ?_, htable, ?_⟩
  · rw [hsame, setPhase_poller]
  · intro x hx
    rcases htrace x hx with ⟨data, w, rfl⟩
    exact id

theorem transientUnharmed_iff (s : Server k) (e : Label k) :
    s.TransientUnharmed e ↔ s.NoTransientRead e := by
  constructor
  · intro h c sc a hrun hconn hestablished htransient
    have hsilent := (h c sc .read a hrun hconn hestablished htransient).silent
    rcases htransient with ⟨err, hans, _⟩
    exact hsilent _ (Conn.handleRead_calls_back hans) trivial
  · intro h c sc p a hrun hconn hestablished htransient
    cases p with
    | read => exact absurd htransient (h c sc a hrun hconn hestablished)
    | write =>
      rcases htransient with ⟨err, hans, _⟩
      exact handleWrite_unharmed hrun hconn hans
    | close => exact htransient.elim
    | error => exact htransient.elim

/-- Transient errors do no harm to any connection, exactly in the runs in which no `readv`
of `handleRead` answers one. -/
theorem transient_unharmed_iff (name : List Char) (listenAddr : InetAddress)
    (es : List (Label k)) :
    EachStep step (init k name listenAddr) TransientUnharmed es ↔
      EachStep step (init k name listenAddr) NoTransientRead es :=
  eachStep_congr transientUnharmed_iff es

/-- Urgent data is reported by `EPOLLPRI`. -/
def urgentData : List (Label 1) :=
  [.loop 0 (.poll []), .accept 5 0 false false 0 [], .loop 0 .startFunctors,
    .loop 0 .endFunctors, .loop 0 (.poll [(5, EPOLLPRI)]), .loop 0 .handle]

/-- There is nothing to read, and the connection is closed. -/
theorem urgent_data_closes :
    ¬ EachStep step (init 1 ['e'] ⟨fun _ => 0#8, 80#16⟩) TransientUnharmed
      (urgentData ++ [.loop 0 (.part { quiet with readv := .err .eagain })]) := by
  intro h
  have hread := (transientUnharmed_iff _ _).mp h.last
  have hphase : ((run step (init 1 ['e'] ⟨fun _ => 0#8, 80#16⟩) urgentData).loops 0).phase =
      .handling 1 [.read] [] := by
    decide +kernel
  have hfree : (run step (init 1 ['e'] ⟨fun _ => 0#8, 80#16⟩) urgentData).LoopFree 0 := by
    decide +kernel
  have hconnected : (run step (init 1 ['e'] ⟨fun _ => 0#8, 80#16⟩) urgentData).Connected 1 := by
    decide +kernel
  rcases hconnected with ⟨sc, hsc, hstate⟩
  exact hread 1 sc _ ⟨0, [], [], rfl, hfree, hphase⟩ hsc (Or.inl hstate)
    ⟨.eagain, rfl, Or.inl rfl⟩

end Server

end EchoServer
