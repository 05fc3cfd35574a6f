import EchoServer.WorldInv

/-!
# No accepted send after half-close

`send` tests `state_` and queues its functor in two steps, `shutdown` stores
the state and queues its functor in two more. The queue orders the functors by
when they were queued, so `shutdownInLoop` can run before the functor of a send
that passed its test earlier. `handleWrite` half-closes on its own as soon as
it finds `KDisconnecting` with the buffer drained, whatever is still queued.

A half-close is clean when no accepted send is left to run after it and no
write follows it on the socket. This depends on the moment of the half-close
alone (`clean_iff`): afterwards the connection is quiet, that is, it accepts no
send and its channel is not writing (`quiet_connStep`).
-/

namespace EchoServer

open Runs Trace

def Effect.isWrite : Effect → Bool
  | .write _ _ => true
  | _ => false

/-- No write on the socket after `SHUT_WR`. -/
def HalfCloseLast (t : List Effect) : Prop :=
  t.Pairwise fun e later => e = .shutdownWrite → later.isWrite = false

theorem HalfCloseLast.of_not_mem {t : List Effect} (h : .shutdownWrite ∉ t) : HalfCloseLast t := by
  refine List.pairwise_of_forall_mem_list ?_
  rintro _ ha b _ rfl
  exact absurd ha h

theorem HalfCloseLast.extends {t t' : List Effect} (h : HalfCloseLast t)
    (hext : Extends (fun e => e.isWrite = false) t t') : HalfCloseLast t' := by
  obtain ⟨es, rfl, hes⟩ := hext
  refine List.pairwise_append.mpr ⟨h, ?_, ?_⟩
  · refine List.pairwise_of_forall_mem_list ?_
    rintro a _ b hb _
    exact hes b hb
  · rintro a _ b hb _
    exact hes b hb

namespace Conn

/-- A `handleWrite` that gets `w` drains the output buffer. -/
def drains (c : Conn) (w : WriteResult) : Bool :=
  c.isWriting && decide (0 < c.writeCount w) &&
    (c.retrieveOutput (c.writeCount w).toNat).tcp.outputBuffer.readableBytes == 0

theorem handleWrite_of_drains {c : Conn} {w : WriteResult} (h : c.drains w = true) :
    c.handleWrite w =
      ((c.emit (.write c.offered w)).retrieveOutput (c.writeCount w).toNat).afterDrain := by
  simp only [drains, Bool.and_eq_true, decide_eq_true_eq, beq_iff_eq] at h
  have hempty : ((c.emit (.write c.offered w)).retrieveOutput
      (c.writeCount w).toNat).tcp.outputBuffer.readableBytes = 0 := h.2
  unfold handleWrite afterWrite
  rw [if_pos h.1.1, if_pos h.1.2, if_pos hempty]

/-- Without draining the trace gets at most the write. -/
theorem handleWrite_trace_of_not_drains {c : Conn} {w : WriteResult} (h : c.drains w = false) :
    (c.handleWrite w).trace = c.trace ∨
      (c.handleWrite w).trace = c.trace ++ [.write c.offered w] := by
  unfold handleWrite
  split
  · rename_i hwriting
    right
    split
    · rename_i hpos
      have hleft : ((c.emit (.write c.offered w)).retrieveOutput
          (c.writeCount w).toNat).tcp.outputBuffer.readableBytes ≠ 0 := by
        simpa [drains, hwriting, hpos, retrieveOutput] using h
      unfold afterWrite
      rw [if_neg hleft]
      rfl
    · rfl
  · exact Or.inl rfl

theorem afterDrain_isWriting (c : Conn) : c.afterDrain.isWriting = false := by
  have h : c.afterDrain.isWriting = c.disableWriting.isWriting := by
    unfold isWriting
    rw [afterDrain_tcp]
  rw [h, disableWriting_isWriting]

theorem afterDrain_shutdownWrite {c : Conn} (h : c.tcp.state = .kDisconnecting) :
    .shutdownWrite ∈ c.afterDrain.trace := by
  have hstate : c.disableWriting.queueWriteComplete.tcp.state = .kDisconnecting := by
    simpa [disableWriting] using h
  have hquiet : c.disableWriting.queueWriteComplete.isWriting = false := by
    simp [isWriting, queueWriteComplete_tcp, disableWriting, Channel.isWriting]
  unfold afterDrain shutdownIfDisconnecting shutdownInLoop
  rw [if_pos hstate, if_pos (by simp [hquiet])]
  simp

theorem afterDrain_not_shutdownWrite {c : Conn} (h : c.tcp.state ≠ .kDisconnecting)
    (hmem : .shutdownWrite ∈ c.afterDrain.trace) : .shutdownWrite ∈ c.trace := by
  have hstate : c.disableWriting.queueWriteComplete.tcp.state ≠ .kDisconnecting := by
    simpa [disableWriting] using h
  unfold afterDrain shutdownIfDisconnecting at hmem
  rw [if_neg hstate] at hmem
  unfold queueWriteComplete at hmem
  split at hmem
  · simpa [disableWriting] using hmem
  · exact hmem

/-- `handleWrite` half-closes exactly when it drains in `KDisconnecting`. -/
theorem handleWrite_shutdownWrite_iff (c : Conn) (w : WriteResult) :
    .shutdownWrite ∈ (c.handleWrite w).trace ↔
      .shutdownWrite ∈ c.trace ∨ c.drains w = true ∧ c.tcp.state = .kDisconnecting := by
  by_cases hdrains : c.drains w = true
  · rw [handleWrite_of_drains hdrains]
    by_cases hstate : c.tcp.state = .kDisconnecting
    · simp [hdrains, hstate, afterDrain_shutdownWrite, retrieveOutput]
    · simp only [hdrains, hstate, and_false, or_false]
      constructor
      · intro hmem
        have hmem' := afterDrain_not_shutdownWrite (by simpa [retrieveOutput] using hstate) hmem
        simpa [retrieveOutput] using hmem'
      · intro hmem
        refine (afterDrain_extends _).mem_of_mem ?_
        simpa [retrieveOutput] using hmem
  · rcases handleWrite_trace_of_not_drains (by simpa using hdrains) with h | h
    · simp [h, hdrains]
    · simp [h, hdrains]

theorem shutdownInLoop_shutdownWrite_iff (c : Conn) :
    .shutdownWrite ∈ c.shutdownInLoop.trace ↔
      .shutdownWrite ∈ c.trace ∨ c.isWriting = false := by
  unfold shutdownInLoop
  split
  · rename_i h
    simp [show c.isWriting = false by simpa using h]
  · rename_i h
    simp [show c.isWriting = true by simpa using h]

theorem handleRead_shutdownWrite_iff (c : Conn) (a : Answers) :
    .shutdownWrite ∈ (c.handleRead a).trace ↔ .shutdownWrite ∈ c.trace := by
  rcases handleRead_cases c a with ⟨chunk, h⟩ | ⟨chunk, h⟩ | ⟨e, h⟩
  · rw [h, messageCallback, (userCalls_extends _ _).mem_iff id]
    simp
  · rw [h, (handleClose_extends _ _).mem_iff id]
    simp
  · rw [h, (handleClose_extends _ _).mem_iff id]
    simp

theorem connectDestroyedAfter_shutdownWrite_iff (c : Conn) (saw : Bool) (us : List UserCall) :
    .shutdownWrite ∈ (c.connectDestroyedAfter saw us).trace ↔ .shutdownWrite ∈ c.trace := by
  cases saw with
  | true =>
    rw [← (notifyDown_extends c us).mem_iff id]
    simp [connectDestroyedAfter, removeChannel]
  | false => simp [connectDestroyedAfter, removeChannel]

/-! ## After the half-close -/

/-- The connection accepts no send and its channel is not writing. -/
structure Quiet (c : Conn) : Prop where
  state : c.tcp.state ≠ .kConnected
  writing : c.isWriting = false

theorem Quiet.of_channel {c c' : Conn} (h : c.Quiet) (hstate : c'.tcp.state = c.tcp.state)
    (hchannel : c'.tcp.channel = c.tcp.channel) : c'.Quiet := by
  refine ⟨hstate ▸ h.state, ?_⟩
  have hwriting := h.writing
  unfold isWriting at hwriting ⊢
  rw [hchannel]
  exact hwriting

theorem handleClose_quiet (c : Conn) (us : List UserCall) : (c.handleClose us).Quiet := by
  refine ⟨by simp [handleClose_state], ?_⟩
  have hnone := disableAll_isWriting c
  unfold isWriting at hnone ⊢
  rw [handleClose_channel]
  exact hnone

theorem IsClosing.not_isWrite {e : Effect} (h : IsClosing e) : e.isWrite = false := by
  cases e with
  | write => exact h.elim
  | _ => exact rfl

theorem OnlyConsumes.not_isWrite {c c' : Conn} (h : OnlyConsumes c c') :
    Extends (fun e => e.isWrite = false) c.trace c'.trace := by
  refine h.trace.mono ?_
  intro e he
  cases e with
  | consumed => exact rfl
  | _ => exact he.elim

theorem OnlyConsumes.quiet {c c' : Conn} (h : OnlyConsumes c c') (hc : c.Quiet) : c'.Quiet :=
  hc.of_channel h.state h.channel

theorem handleClose_not_isWrite (c : Conn) (us : List UserCall) :
    Extends (fun e => e.isWrite = false) c.trace (c.handleClose us).trace :=
  (handleClose_extends c us).mono fun _ => IsClosing.not_isWrite

theorem emit_not_isWrite (c : Conn) {e : Effect} (he : e.isWrite = false) :
    Extends (fun e => e.isWrite = false) c.trace (c.emit e).trace := by
  apply Extends.one
  exact he

theorem handleRead_quiet {c : Conn} (h : c.Quiet) (a : Answers) :
    (c.handleRead a).Quiet ∧
      Extends (fun e => e.isWrite = false) c.trace (c.handleRead a).trace := by
  rcases handleRead_cases c a with ⟨chunk, hread⟩ | ⟨chunk, hread⟩ | ⟨e, hread⟩
  · rw [hread]
    have hcalled : ((c.readInput chunk).emit .messageCallback).Quiet := h.of_channel rfl rfl
    have huser := userCalls_onlyConsumes hcalled.state a.onMessage
    refine ⟨huser.quiet hcalled, ?_⟩
    have hinput : Extends (fun e => e.isWrite = false) c.trace (c.readInput chunk).trace := by
      apply Extends.one
      exact rfl
    exact (hinput.trans (emit_not_isWrite _ rfl)).trans huser.not_isWrite
  · rw [hread]
    have hinput : Extends (fun e => e.isWrite = false) c.trace (c.readInput chunk).trace := by
      apply Extends.one
      exact rfl
    exact ⟨handleClose_quiet _ _, hinput.trans (handleClose_not_isWrite _ _)⟩
  · rw [hread]
    exact ⟨handleClose_quiet _ _, (emit_not_isWrite c rfl).trans (handleClose_not_isWrite _ _)⟩

theorem runPart_quiet {c : Conn} (h : c.Quiet) (p : Part) (a : Answers) :
    (c.runPart p a).Quiet ∧ Extends (fun e => e.isWrite = false) c.trace (c.runPart p a).trace := by
  cases p with
  | close => exact ⟨handleClose_quiet c _, handleClose_not_isWrite c _⟩
  | error =>
    obtain ⟨e, he⟩ := handleError_eq c a.sockOpt a.onConnection
    simp only [runPart, he]
    exact ⟨handleClose_quiet _ _, (emit_not_isWrite c rfl).trans (handleClose_not_isWrite _ _)⟩
  | read => exact handleRead_quiet h a
  | write =>
    simp only [runPart, handleWrite_of_not_writing h.writing]
    exact ⟨h, Extends.refl _ _⟩

theorem removeChannel_quiet {c : Conn} (h : c.Quiet) : c.removeChannel.Quiet := by
  refine ⟨h.state, ?_⟩
  have hwriting := h.writing
  simpa [isWriting, removeChannel, EPollPoller.removeChannel_channel, Channel.isWriting]
    using hwriting

theorem removeChannel_not_isWrite (c : Conn) :
    Extends (fun e => e.isWrite = false) c.trace c.removeChannel.trace := by
  apply Extends.one
  exact rfl

theorem connectDestroyedAfter_quiet {c : Conn} (h : c.Quiet) (saw : Bool) (us : List UserCall) :
    (c.connectDestroyedAfter saw us).Quiet ∧
      Extends (fun e => e.isWrite = false) c.trace (c.connectDestroyedAfter saw us).trace := by
  cases saw with
  | true =>
    have hdown := notifyDown_onlyConsumes c us
    have hquiet : (((c.setState .kDisconnected).disableAll).connectionCallback us).Quiet := by
      refine hdown.quiet ⟨by simp [disableAll], ?_⟩
      exact disableAll_isWriting _
    have hext := (notifyDown_extends c us).mono fun _ => IsClosing.not_isWrite
    exact ⟨removeChannel_quiet hquiet, hext.trans (removeChannel_not_isWrite _)⟩
  | false => exact ⟨removeChannel_quiet h, removeChannel_not_isWrite c⟩

end Conn

namespace World

/-- A `send` has passed its test and its `sendInLoop` has not run. -/
def Outstanding (w : World) : Prop :=
  (∃ tid buf, w.threads tid = .sendAccepted buf) ∨
    ∃ buf, .sendInLoop buf ∈ w.batch ++ w.pending

/-- After `SHUT_WR` no accepted send is left, and no write has followed it. -/
structure CleanHalfClose (w : World) : Prop where
  last : HalfCloseLast w.conn.trace
  none_left : .shutdownWrite ∈ w.conn.trace → ¬ w.Outstanding

/-- The step issues `SHUT_WR`: a `shutdownInLoop` functor that finds the
channel not writing, or a `handleWrite` that drains in `KDisconnecting`. -/
def HalfCloses (w : World) : Label → Prop
  | .loop (.functor _) => w.destroying = none ∧ w.pc = .functors ∧
      w.batch.head? = some .shutdownInLoop ∧ w.conn.isWriting = false
  | .loop (.part a) => w.destroying = none ∧ (∃ rest, w.pc = .handling (.write :: rest)) ∧
      w.conn.drains a.write = true ∧ w.conn.tcp.state = .kDisconnecting
  | _ => False

/-- With `Inv`: after `SHUT_WR` the connection is quiet. -/
structure HalfCloseInv (w : World) : Prop where
  inv : w.Inv
  quiet : .shutdownWrite ∈ w.conn.trace → w.conn.Quiet

/-! ## Outstanding sends -/

theorem not_queued_send {c : Conn} (h : c.Sound) (buf : SentString) :
    .queueInLoop (.sendInLoop buf) ∉ c.trace := by
  intro hmem
  rcases h.queued _ hmem with hcallback | heq
  · exact hcallback
  · cases heq

theorem Outstanding.of_withConn {w : World} {c : Conn} (hc : c.Sound)
    (h : (w.withConn c).Outstanding) : w.Outstanding := by
  rcases h with hthread | ⟨buf, hbuf⟩
  · exact Or.inl hthread
  · refine Or.inr ⟨buf, ?_⟩
    rcases List.mem_append.mp hbuf with hbuf | hbuf
    · exact List.mem_append_left _ hbuf
    · rcases mem_withConn_pending hbuf with hbuf | hbuf
      · exact List.mem_append_right _ hbuf
      · exact absurd hbuf (not_queued_send hc buf)

theorem Outstanding.of_setThread {w : World} {tid : Nat} {pc : ThreadPc}
    (hpc : ∀ buf, pc ≠ .sendAccepted buf) (h : (w.setThread tid pc).Outstanding) :
    w.Outstanding := by
  rcases h with ⟨tid', buf, htid⟩ | hbuf
  · by_cases heq : tid' = tid
    · subst heq
      exact absurd (by simpa [setThread] using htid) (hpc buf)
    · exact Or.inl ⟨tid', buf, by simpa [setThread, heq] using htid⟩
  · exact Or.inr hbuf

theorem Outstanding.of_push {w : World} {f : Functor} (hf : ∀ buf, f ≠ .sendInLoop buf)
    (h : (w.push f).Outstanding) : w.Outstanding := by
  rcases h with hthread | ⟨buf, hbuf⟩
  · exact Or.inl hthread
  · refine Or.inr ⟨buf, ?_⟩
    rw [push_batch, push_pending, ← List.append_assoc] at hbuf
    rcases List.mem_append.mp hbuf with hbuf | hbuf
    · exact hbuf
    · exact absurd (List.mem_singleton.mp hbuf).symm (hf buf)

theorem Outstanding.of_queues {w : World} {batch pending : List Functor}
    (hsub : ∀ f ∈ batch ++ pending, f ∈ w.batch ++ w.pending)
    (h : { w with batch := batch, pending := pending }.Outstanding) : w.Outstanding := by
  rcases h with hthread | ⟨buf, hbuf⟩
  · exact Or.inl hthread
  · exact Or.inr ⟨buf, hsub _ hbuf⟩

theorem Outstanding.of_execute {w : World} (hw : w.Inv) {f : Functor} (hf : f.Justified w.conn)
    {a : Conn.Answers} (h : (w.execute f a).Outstanding) : w.Outstanding := by
  cases f with
  | sendInLoop buf => exact h.of_withConn ((Conn.sendInLoop_moves _ _ _).sound hw.sound)
  | shutdownInLoop => exact h.of_withConn ((Conn.shutdownInLoop_moves _).sound hw.sound)
  | writeCompleteCallback => exact h
  | writeCompleteMember => exact h
  | highWaterMarkCallback => exact h
  | connectEstablished => exact hf.elim
  | connectDestroyed => exact h
  | removeConnectionInLoop => exact h.of_push (by simp)

/-- A connection that is not `KConnected` accepts no further send. -/
theorem outstanding_of_step {w : World} (h : w.Inv) (hstate : w.conn.tcp.state ≠ .kConnected)
    {e : Label} (hout : (w.step e).Outstanding) : w.Outstanding := by
  rcases step_cases w e with hstutter | hstep
  · rw [hstutter] at hout
    exact hout
  generalize w.step e = w' at hstep hout
  cases hstep with
  | send tid data len hpc hconnected => exact absurd hconnected hstate
  | sendQueue tid buf hpc => exact Or.inl ⟨tid, buf, hpc⟩
  | shutdown tid => exact hout.of_setThread (by simp)
  | shutdownStore tid =>
    have hstored : { w with conn := w.conn.setState .kDisconnecting }.Outstanding :=
      hout.of_setThread (by simp)
    exact hstored
  | shutdownQueue tid => exact (hout.of_setThread (by simp)).of_push (by simp)
  | store => exact hout
  | queueDestroyed => exact hout.of_push (by simp)
  | poll => exact hout
  | handle => exact hout
  | part p rest a =>
    have hpart : (w.withConn (w.conn.runPart p a)).Outstanding := hout
    exact hpart.of_withConn ((Conn.runPart_moves _ p a).sound h.sound)
  | handled => exact hout
  | userCall u => exact hout.of_withConn ((Conn.userCall_moves _ u).sound h.sound)
  -- the same functors, in the batch
  | swap =>
    have hswapped : { w with batch := w.pending, pending := [] }.Outstanding := hout
    refine hswapped.of_queues ?_
    intro f hf
    simpa using Or.inr hf
  | functor f rest a hdest hpc hbatch =>
    have hpop : ∀ g ∈ rest ++ w.pending, g ∈ w.batch ++ w.pending := by
      intro g hg
      rw [hbatch, List.cons_append]
      exact List.mem_cons_of_mem f hg
    have hpopped : { w with batch := rest }.Inv := h.setQueues hpop
    have hf : f.Justified w.conn := h.queued f (by simp [hbatch])
    have hrest : { w with batch := rest }.Outstanding := hout.of_execute hpopped hf
    exact hrest.of_queues hpop
  | endFunctors => exact hout
  | connectDestroyed => exact hout
  | destroyRest saw us hdest =>
    have hrest : (w.withConn (w.conn.connectDestroyedAfter saw us)).Outstanding := hout
    exact hrest.of_withConn (Conn.connectDestroyedAfter_sound h.sound saw us)

theorem Outstanding.withConn {w : World} (h : w.Outstanding) (c : Conn) :
    (w.withConn c).Outstanding := by
  rcases h with hthread | ⟨buf, hbuf⟩
  · exact Or.inl hthread
  · refine Or.inr ⟨buf, ?_⟩
    rcases List.mem_append.mp hbuf with hbuf | hbuf
    · exact List.mem_append_left _ hbuf
    · exact List.mem_append_right _ (List.mem_append_left _ hbuf)

/-- The half-close itself runs no send. -/
theorem outstanding_halfClose {w : World} (hout : w.Outstanding) {e : Label}
    (hclose : w.HalfCloses e) : (w.step e).Outstanding := by
  cases e with
  | loop l =>
    cases l with
    | functor a =>
      obtain ⟨hdest, hpc, hhead, _⟩ := hclose
      obtain ⟨rest, hbatch⟩ := List.head?_eq_some_iff.mp hhead
      have hstep : w.step (.loop (.functor a)) =
          { w with batch := rest }.withConn w.conn.shutdownInLoop := by
        simp [World.step, loopStep, runFunctor, hdest, hpc, hbatch, execute]
      have hrest : { w with batch := rest }.Outstanding := by
        rcases hout with hthread | ⟨buf, hbuf⟩
        · exact Or.inl hthread
        · refine Or.inr ⟨buf, ?_⟩
          simpa [hbatch] using hbuf
      rw [hstep]
      exact hrest.withConn _
    | part a =>
      obtain ⟨hdest, ⟨rest, hpc⟩, _⟩ := hclose
      have hstep : w.step (.loop (.part a)) =
          { w.withConn (w.conn.runPart .write a) with pc := .handling rest } := by
        simp [World.step, loopStep, hdest, hpc]
      rw [hstep]
      exact hout.withConn _
    | _ => exact hclose.elim
  | _ => exact hclose.elim

/-! ## One step -/

/-- On a quiet connection every step but a queued send writes nothing. -/
theorem quiet_connStep {w : World} (h : w.conn.Quiet) {e : Label} {c : Conn}
    (hstep : ConnStep w e c) :
    c.Quiet ∧ Extends (fun e => e.isWrite = false) w.conn.trace c.trace := by
  cases hstep with
  | same => exact ⟨h, Extends.refl _ _⟩
  | shutdownStore =>
    refine ⟨⟨by simp, h.writing⟩, ?_⟩
    apply Extends.one
    exact rfl
  | part p rest a => exact Conn.runPart_quiet h p a
  | userCall u =>
    have hread := Conn.userCall_onlyConsumes h.state u
    exact ⟨hread.quiet h, hread.not_isWrite⟩
  | shutdownInLoop =>
    refine ⟨h.of_channel ?_ ?_, (Conn.shutdownInLoop_extends _).mono ?_⟩
    · rw [Conn.shutdownInLoop_tcp]
    · rw [Conn.shutdownInLoop_tcp]
    · rintro _ rfl
      exact rfl
  | destroyRest saw us => exact Conn.connectDestroyedAfter_quiet h saw us

/-- The first half of `shutdownInLoop`'s and `handleWrite`'s half-closes. -/
theorem step_of_halfCloses {w : World} {e : Label} (hclose : w.HalfCloses e) :
    (w.step e).conn = w.conn.shutdownInLoop ∧ w.conn.isWriting = false ∧
      .shutdownInLoop ∈ w.batch ∨
    ∃ r, (w.step e).conn = w.conn.handleWrite r ∧ w.conn.drains r = true ∧
      w.conn.tcp.state = .kDisconnecting := by
  cases e with
  | loop l =>
    cases l with
    | functor a =>
      obtain ⟨hdest, hpc, hhead, hwriting⟩ := hclose
      obtain ⟨rest, hbatch⟩ := List.head?_eq_some_iff.mp hhead
      left
      simp [World.step, loopStep, runFunctor, hdest, hpc, hbatch, execute, hwriting]
    | part a =>
      obtain ⟨hdest, ⟨rest, hpc⟩, hdrains, hstate⟩ := hclose
      right
      exact ⟨a.write, by simp [World.step, loopStep, hdest, hpc, Conn.runPart], hdrains, hstate⟩
    | _ => exact hclose.elim
  | _ => exact hclose.elim

theorem state_of_halfCloses {w : World} (h : w.Inv) {e : Label} (hclose : w.HalfCloses e) :
    w.conn.tcp.state ≠ .kConnected := by
  rcases step_of_halfCloses hclose with ⟨_, _, hmem⟩ | ⟨r, _, _, hstate⟩
  · have hstored := h.queued .shutdownInLoop (List.mem_append_left _ hmem)
    exact h.sound.left .kDisconnecting (by simp) hstored
  · simp [hstate]

theorem quiet_of_halfCloses {w : World} (h : w.Inv) {e : Label} (hclose : w.HalfCloses e) :
    (w.step e).conn.Quiet := by
  have hstate := state_of_halfCloses h hclose
  rcases step_of_halfCloses hclose with ⟨hconn, hwriting, _⟩ | ⟨r, hconn, hdrains, _⟩
  · rw [hconn]
    refine Conn.Quiet.of_channel ⟨hstate, hwriting⟩ ?_ ?_
    · rw [Conn.shutdownInLoop_tcp]
    · rw [Conn.shutdownInLoop_tcp]
  · rw [hconn]
    refine ⟨by simpa using hstate, ?_⟩
    rw [Conn.handleWrite_of_drains hdrains]
    exact Conn.afterDrain_isWriting _

/-- A step half-closes the connection exactly when it is one of the two. -/
theorem shutdownWrite_step_iff {w : World} (h : w.Inv) (e : Label) :
    .shutdownWrite ∈ (w.step e).conn.trace ↔
      .shutdownWrite ∈ w.conn.trace ∨ w.HalfCloses e := by
  constructor
  · intro hmem
    by_cases hsend : ∀ buf a, ¬ w.RunsSend buf a e
    · have hstep := connStep h hsend
      generalize (w.step e).conn = c at hstep hmem
      cases hstep with
      | same => exact Or.inl hmem
      | shutdownStore => exact Or.inl (by simpa using hmem)
      | part p rest a hdest hpc =>
        cases p with
        | close => exact Or.inl (((Conn.handleClose_extends _ _).mem_iff id).mp hmem)
        | error =>
          obtain ⟨e, he⟩ := Conn.handleError_eq w.conn a.sockOpt a.onConnection
          simp only [Conn.runPart, he] at hmem
          exact Or.inl (by simpa using ((Conn.handleClose_extends _ _).mem_iff id).mp hmem)
        | read => exact Or.inl ((Conn.handleRead_shutdownWrite_iff _ a).mp hmem)
        | write =>
          rcases (Conn.handleWrite_shutdownWrite_iff _ _).mp hmem with hold | ⟨hdrains, hstate⟩
          · exact Or.inl hold
          · exact Or.inr ⟨hdest, ⟨rest, hpc⟩, hdrains, hstate⟩
      | userCall u => exact Or.inl (((Conn.userCall_extends _ u).mem_iff id).mp hmem)
      | shutdownInLoop a hdest hpc hhead =>
        rcases (Conn.shutdownInLoop_shutdownWrite_iff _).mp hmem with hold | hwriting
        · exact Or.inl hold
        · exact Or.inr ⟨hdest, hpc, hhead, hwriting⟩
      | destroyRest saw us hdest =>
        exact Or.inl ((Conn.connectDestroyedAfter_shutdownWrite_iff _ saw us).mp hmem)
    · -- a queued send half-closes nothing
      push Not at hsend
      obtain ⟨buf, a, hrun⟩ := hsend
      rw [step_of_runsSend hrun] at hmem
      exact Or.inl (((Conn.sendInLoop_extends _ _ _).mem_iff id).mp hmem)
  · rintro (hold | hclose)
    · exact mem_trace_step h e hold
    · rcases step_of_halfCloses hclose with ⟨hconn, hwriting, _⟩ | ⟨r, hconn, hdrains, hstate⟩
      · rw [hconn]
        exact (Conn.shutdownInLoop_shutdownWrite_iff _).mpr (Or.inr hwriting)
      · rw [hconn]
        exact (Conn.handleWrite_shutdownWrite_iff _ _).mpr (Or.inr ⟨hdrains, hstate⟩)

theorem halfCloseLast_of_halfCloses {w : World} (hfirst : .shutdownWrite ∉ w.conn.trace)
    {e : Label} (hclose : w.HalfCloses e) : HalfCloseLast (w.step e).conn.trace := by
  rcases step_of_halfCloses hclose with ⟨hconn, _, _⟩ | ⟨r, hconn, hdrains, _⟩
  · rw [hconn]
    refine (HalfCloseLast.of_not_mem hfirst).extends ((Conn.shutdownInLoop_extends _).mono ?_)
    rintro _ rfl
    rfl
  · -- the write of this `handleWrite` comes before its half-close
    have hwrite : .shutdownWrite ∉ (w.conn.emit (.write w.conn.offered r)).trace := by
      simpa using hfirst
    rw [hconn, Conn.handleWrite_of_drains hdrains]
    refine (HalfCloseLast.of_not_mem hwrite).extends ((Conn.afterDrain_extends _).mono ?_)
    intro e he
    cases e with
    | write => exact he.elim
    | _ => rfl

theorem not_runsSend_of_clean {w : World} (hout : ¬ w.Outstanding) (e : Label) (buf : SentString)
    (a : Conn.Answers) : ¬ w.RunsSend buf a e := by
  rintro ⟨_, _, hhead, _⟩
  obtain ⟨rest, hbatch⟩ := List.head?_eq_some_iff.mp hhead
  exact hout (Or.inr ⟨buf, by simp [hbatch]⟩)

theorem HalfCloseInv.step {w : World} (h : w.HalfCloseInv) (hP : w.CleanHalfClose) (e : Label) :
    (w.step e).HalfCloseInv := by
  refine ⟨h.inv.step e, ?_⟩
  intro hmem'
  by_cases hmem : .shutdownWrite ∈ w.conn.trace
  · have hsend := not_runsSend_of_clean (hP.none_left hmem) e
    exact (quiet_connStep (h.quiet hmem) (connStep h.inv hsend)).1
  · rcases (shutdownWrite_step_iff h.inv e).mp hmem' with hold | hclose
    · exact absurd hold hmem
    · exact quiet_of_halfCloses h.inv hclose

/-- Cleanness is decided by the step that half-closes. -/
theorem clean_iff {w : World} (h : w.HalfCloseInv) (hP : w.CleanHalfClose) (e : Label) :
    (w.step e).CleanHalfClose ↔ (w.HalfCloses e → ¬ w.Outstanding) := by
  constructor
  · intro hclean hclose hout
    have hmem := (shutdownWrite_step_iff h.inv e).mpr (Or.inr hclose)
    exact hclean.none_left hmem (outstanding_halfClose hout hclose)
  · intro hC
    by_cases hmem' : .shutdownWrite ∈ (w.step e).conn.trace
    · -- issued earlier: the connection is quiet and stays so
      by_cases hmem : .shutdownWrite ∈ w.conn.trace
      · have hout := hP.none_left hmem
        have hstep := connStep h.inv (not_runsSend_of_clean hout e)
        refine ⟨hP.last.extends (quiet_connStep (h.quiet hmem) hstep).2, fun _ hout' => ?_⟩
        exact hout (outstanding_of_step h.inv (h.quiet hmem).state hout')
      · rcases (shutdownWrite_step_iff h.inv e).mp hmem' with hold | hclose
        · exact absurd hold hmem
        · refine ⟨halfCloseLast_of_halfCloses hmem hclose, fun _ hout' => ?_⟩
          exact hC hclose (outstanding_of_step h.inv (state_of_halfCloses h.inv hclose) hout')
    · exact ⟨HalfCloseLast.of_not_mem hmem', fun hmem => absurd hmem hmem'⟩

end World

open World

theorem upConn_shutdownWrite (self fd : Nat) (wc hw : Bool) (mark : Nat) (us : List UserCall) :
    .shutdownWrite ∉ (Conn.upConn self fd wc hw mark us).trace := by
  unfold Conn.upConn Conn.connectEstablished Conn.connectionCallback
  rw [(Conn.userCalls_extends _ us).mem_iff id]
  simp [Conn.enableReading, Conn.new]

/-- No accepted send comes after the half-close exactly in the runs in which
`SHUT_WR` is issued only while no accepted send is outstanding. -/
theorem no_send_after_half_close_iff (self fd : Nat) (wc hw : Bool) (mark : Nat)
    (onConnection : List UserCall) (mem : Nat → Byte) (es : List Label) :
    Always step (established self fd wc hw mark onConnection mem) CleanHalfClose es ↔
      EachStep step (established self fd wc hw mark onConnection mem)
        (fun w e => w.HalfCloses e → ¬ w.Outstanding) es := by
  have hfirst := upConn_shutdownWrite self fd wc hw mark onConnection
  refine always_iff_eachStep HalfCloseInv ?_ (fun w e h hP => h.step hP e) ?_
    (fun w e h hP => clean_iff h hP e) es
  · exact ⟨established_inv self fd wc hw mark onConnection mem, fun hmem => absurd hmem hfirst⟩
  · exact ⟨HalfCloseLast.of_not_mem hfirst, fun hmem => absurd hmem hfirst⟩

/-- One thread passes the test of `send`; another one gets through the whole of
`shutdown` before the first queues its functor. -/
def sendOvertaken : List Label :=
  [.send 0 100 1, .shutdown 1, .shutdownStore 1, .shutdownQueue 1, .sendQueue 0,
    .loop .endFunctors, .loop (.poll none), .loop .swap,
    .loop (.functor healthySocket), .loop (.functor healthySocket)]

/-- The accepted byte is written after `SHUT_WR`. -/
theorem write_after_half_close :
    ¬ Always step (established 1 5 false false 64 [] fun _ => 7) CleanHalfClose
      sendOvertaken := by
  intro h
  have hlast := (h _ (List.prefix_refl _)).last
  unfold HalfCloseLast at hlast
  revert hlast
  decide +kernel

end EchoServer
