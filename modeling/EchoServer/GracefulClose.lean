import EchoServer.HalfClose

/-!
# The half-close comes, and not too early

`shutdownInLoop` and the end of `handleWrite` take `isWriting` for "there is
output to send". As long as the connection has been neither closed nor
destroyed this is exact (`Poised`), so `SHUT_WR` is issued only with an empty
output buffer. A `shutdown` hands its duty to the functor it queues, the
functor to the pending output if there is any, and the `handleWrite` that
drains this issues `SHUT_WR` (`Handled`).

`handleWrite` reads `state_` once, after everything else it does; a store by
another thread before that has the effect of a store before the handler
(`drains_setState`, `store_before_test`).
-/

namespace EchoServer

open Runs Trace

namespace Conn

/-- Neither `handleClose` nor `connectDestroyed` has run. -/
def Open (c : Conn) : Prop :=
  .setState .kDisconnected ∉ c.trace ∧ .removeChannel ∉ c.trace

/-- The channel is writing exactly while output is buffered, and a state that
has become `KDisconnecting` is still that. -/
structure Poised (c : Conn) : Prop where
  writing : c.isWriting = true ↔ c.tcp.outputBuffer.readable ≠ []
  state : .setState .kDisconnecting ∈ c.trace → c.tcp.state = .kDisconnecting

theorem Poised.of_extends {c c' : Conn} (h : c.Poised) {Q : Effect → Prop}
    (hstate : c'.tcp.state = c.tcp.state) (hwriting : c'.isWriting = c.isWriting)
    (houtput : c'.tcp.outputBuffer = c.tcp.outputBuffer) (htrace : Extends Q c.trace c'.trace)
    (hQ : ¬ Q (.setState .kDisconnecting)) : c'.Poised := by
  constructor
  · rw [hwriting, houtput]
    exact h.writing
  · intro hmem
    rw [hstate]
    exact h.state ((htrace.mem_iff hQ).mp hmem)

theorem OnlyConsumes.poised {c c' : Conn} (h : OnlyConsumes c c') (hc : c.Poised) : c'.Poised := by
  refine hc.of_extends h.state ?_ h.outputBuffer h.trace id
  unfold isWriting
  rw [h.channel]

theorem emit_poised {c : Conn} (h : c.Poised) {e : Effect} (he : e ≠ .setState .kDisconnecting) :
    (c.emit e).Poised :=
  h.of_extends rfl rfl rfl (Extends.one (Q := (· = e)) rfl c.trace) fun heq => he heq.symm

theorem setInputBuffer_poised {c : Conn} (h : c.Poised) (b : Buffer) :
    (c.setInputBuffer b).Poised := ⟨h.writing, h.state⟩

/-! ## Sending -/

theorem leavesRest_length {c : Conn} {data : List Byte} {w : WriteResult}
    (h : c.leavesRest data w = true) : data.drop (c.nwrote data w) ≠ [] := by
  simp only [leavesRest, Bool.and_eq_true, decide_eq_true_eq] at h
  intro hnil
  have hlength := List.drop_eq_nil_iff.mp hnil
  omega

theorem sendInLoop_poised {c : Conn} (h : c.Poised) (data : List Byte) (w : WriteResult) :
    (c.sendInLoop data w).Poised := by
  constructor
  · unfold sendInLoop
    split
    · rename_i hrest
      have hne := leavesRest_length hrest
      rw [bufferOutput_isWriting, bufferOutput_outputBuffer, Buffer.readable_append]
      simp [hne]
    · have hwriting : (c.tryDirectWrite data w).isWriting = c.isWriting := by
        unfold isWriting
        rw [tryDirectWrite_tcp]
      rw [hwriting, tryDirectWrite_tcp]
      exact h.writing
  · intro hmem
    rw [sendInLoop_state]
    exact h.state (((sendInLoop_extends c data w).mem_iff id).mp hmem)

/-- Sending never ends the writing. -/
theorem sendInLoop_isWriting {c : Conn} (h : c.isWriting = true) (data : List Byte)
    (w : WriteResult) : (c.sendInLoop data w).isWriting = true := by
  have hquiet : c.enablesWriting data w = false := by simp [enablesWriting, h]
  unfold isWriting at h ⊢
  rw [sendInLoop_channel_of_quiet hquiet]
  exact h

theorem userCall_poised {c : Conn} (h : c.Poised) (u : UserCall) : (c.userCall u).Poised := by
  by_cases hstate : c.tcp.state = .kConnected
  · cases u with
    | send data w =>
      simp only [userCall, send, if_pos hstate]
      exact sendInLoop_poised h data w
    | shutdown =>
      simp only [userCall, shutdown, if_pos hstate]
      exact ⟨h.writing, fun _ => rfl⟩
    | retrieve | retrieveAll | retrieveAllAsString =>
      exact emit_poised (setInputBuffer_poised h _) (by simp)
  · exact (userCall_onlyConsumes hstate u).poised h

theorem userCalls_poised {c : Conn} (h : c.Poised) (us : List UserCall) :
    (c.userCalls us).Poised := by
  induction us generalizing c with
  | nil => exact h
  | cons u us ih => exact ih (userCall_poised h u)

/-! ## Handlers -/

theorem handleClose_not_open (c : Conn) (us : List UserCall) : ¬ (c.handleClose us).Open := by
  intro hopen
  have hstored : .setState .kDisconnected ∈
      (((c.setState .kDisconnected).disableAll).emit (.connectionCallback false)).trace := by
    simp [disableAll]
  have hmem := (notifyDown_onlyConsumes c us).trace.mem_of_mem hstored
  exact hopen.1 (List.mem_append_left _ hmem)

/-- After a drain nothing is left in the output buffer. -/
theorem handleWrite_readable_of_drains {c : Conn} {w : WriteResult} (h : c.drains w = true) :
    (c.handleWrite w).tcp.outputBuffer.readable = [] := by
  have hdrains := h
  simp only [drains, Bool.and_eq_true, decide_eq_true_eq, beq_iff_eq] at hdrains
  rw [handleWrite_of_drains h, afterDrain_tcp, Buffer.readable_eq_nil_iff]
  exact hdrains.2

/-- A `handleWrite` that does not drain keeps the channel writing, with bytes
left. -/
theorem handleWrite_of_not_drains {c : Conn} (h : c.Poised) (hwriting : c.isWriting = true)
    {w : WriteResult} (hdrains : c.drains w = false) :
    (c.handleWrite w).isWriting = true ∧ (c.handleWrite w).tcp.outputBuffer.readable ≠ [] := by
  unfold handleWrite
  rw [if_pos hwriting]
  split
  · rename_i hpos
    have hleft : ((c.emit (.write c.offered w)).retrieveOutput
        (c.writeCount w).toNat).tcp.outputBuffer.readableBytes ≠ 0 := by
      simpa [drains, hwriting, hpos, retrieveOutput] using hdrains
    unfold afterWrite
    rw [if_neg hleft]
    refine ⟨hwriting, ?_⟩
    rw [Ne, Buffer.readable_eq_nil_iff]
    exact hleft
  · exact ⟨hwriting, h.writing.mp hwriting⟩

theorem handleWrite_poised {c : Conn} (h : c.Poised) (w : WriteResult) :
    (c.handleWrite w).Poised := by
  constructor
  · by_cases hwriting : c.isWriting = true
    · by_cases hdrains : c.drains w = true
      · have hnot : (c.handleWrite w).isWriting = false := by
          rw [handleWrite_of_drains hdrains]
          exact afterDrain_isWriting _
        simp [hnot, handleWrite_readable_of_drains hdrains]
      · rcases handleWrite_of_not_drains h hwriting (by simpa using hdrains) with ⟨hstill, hleft⟩
        simp [hstill, hleft]
    · rw [handleWrite_of_not_writing (by simpa using hwriting)]
      exact h.writing
  · intro hmem
    rw [handleWrite_state]
    exact h.state (((handleWrite_extends c w).mem_iff id).mp hmem)

/-- On a connection that stays open, the event handlers are a message callback
after input, and `handleWrite`. -/
theorem runPart_open_cases {c : Conn} {p : Part} {a : Answers} (hopen : (c.runPart p a).Open) :
    (∃ chunk, c.runPart p a = (c.readInput chunk).messageCallback a.onMessage) ∨ p = .write := by
  cases p with
  | close => exact absurd hopen (handleClose_not_open _ _)
  | error =>
    rcases handleError_eq c a.sockOpt a.onConnection with ⟨e, he⟩
    rw [runPart, he] at hopen
    exact absurd hopen (handleClose_not_open _ _)
  | read =>
    rw [runPart] at hopen ⊢
    rcases handleRead_cases c a with ⟨chunk, hread⟩ | ⟨chunk, hread⟩ | ⟨e, hread⟩
    · exact Or.inl ⟨chunk, hread⟩
    · rw [hread] at hopen
      exact absurd hopen (handleClose_not_open _ _)
    · rw [hread] at hopen
      exact absurd hopen (handleClose_not_open _ _)
  | write => exact Or.inr rfl

theorem runPart_poised {c : Conn} (h : c.Poised) (p : Part) (a : Answers)
    (hopen : (c.runPart p a).Open) : (c.runPart p a).Poised := by
  rcases runPart_open_cases hopen with ⟨chunk, hread⟩ | rfl
  · rw [hread]
    have hinput : (c.readInput chunk).Poised := emit_poised (setInputBuffer_poised h _) (by simp)
    exact userCalls_poised (emit_poised hinput (by simp)) a.onMessage
  · exact handleWrite_poised h a.write

theorem drains_setState (c : Conn) (s : StateE) (w : WriteResult) :
    (c.setState s).drains w = c.drains w := rfl

/-- Storing `state_` while `handleWrite` is on its way to its test leaves the
connection as storing it before the handler does. -/
theorem store_before_test (c : Conn) (s : StateE) (e : Effect) (n : Nat) :
    (((c.setState s).emit e).retrieveOutput n).disableWriting.queueWriteComplete.tcp =
      ((((c.emit e).retrieveOutput n).disableWriting.queueWriteComplete).setState s).tcp := by
  show _ = { (((c.emit e).retrieveOutput n).disableWriting.queueWriteComplete).tcp with state := s }
  rw [queueWriteComplete_tcp, queueWriteComplete_tcp]
  rfl

/-! ## Operations that issue no `SHUT_WR` -/

/-- The trace grows without a `SHUT_WR`. -/
def Unshut (c c' : Conn) : Prop := Extends (· ≠ .shutdownWrite) c.trace c'.trace

theorem unshut_of_extends {c c' : Conn} {Q : Effect → Prop} (h : Extends Q c.trace c'.trace)
    (hQ : ¬ Q .shutdownWrite) : Unshut c c' := by
  refine h.mono ?_
  rintro e he rfl
  exact hQ he

theorem emit_unshut (c : Conn) {e : Effect} (he : e ≠ .shutdownWrite) : Unshut c (c.emit e) :=
  Extends.one (Q := fun e => e ≠ Effect.shutdownWrite) he c.trace

theorem handleClose_unshut (c : Conn) (us : List UserCall) : Unshut c (c.handleClose us) :=
  unshut_of_extends (handleClose_extends c us) id

theorem handleRead_unshut (c : Conn) (a : Answers) : Unshut c (c.handleRead a) := by
  rcases handleRead_cases c a with ⟨chunk, hread⟩ | ⟨chunk, hread⟩ | ⟨e, hread⟩
  · rw [hread]
    have hinput : Unshut c (c.readInput chunk) := emit_unshut (c.setInputBuffer _) (by simp)
    have hcalled := emit_unshut (c.readInput chunk) (e := .messageCallback) (by simp)
    exact (hinput.trans hcalled).trans (unshut_of_extends (userCalls_extends _ _) id)
  · rw [hread]
    have hinput : Unshut c (c.readInput chunk) := emit_unshut (c.setInputBuffer _) (by simp)
    exact hinput.trans (handleClose_unshut _ _)
  · rw [hread]
    exact (emit_unshut c (by simp)).trans (handleClose_unshut _ _)

/-- `handleWrite` issues it only when it drains in `KDisconnecting`. -/
theorem handleWrite_unshut {c : Conn} {w : WriteResult}
    (h : c.drains w = true → c.tcp.state ≠ .kDisconnecting) : Unshut c (c.handleWrite w) := by
  by_cases hdrains : c.drains w = true
  · rw [handleWrite_of_drains hdrains]
    have hstate : (((c.emit (.write c.offered w)).retrieveOutput
        (c.writeCount w).toNat).disableWriting.queueWriteComplete).tcp.state ≠ .kDisconnecting := by
      simpa [disableWriting, retrieveOutput] using h hdrains
    have hwrite := emit_unshut c (e := .write c.offered w) (by simp)
    unfold afterDrain shutdownIfDisconnecting
    rw [if_neg hstate]
    unfold queueWriteComplete
    split
    · exact hwrite.trans (Extends.one (by simp) _)
    · exact hwrite
  · rcases handleWrite_trace_of_not_drains (by simpa using hdrains) with hsame | hwrite
    · unfold Unshut
      rw [hsame]
      exact Extends.refl _ _
    · unfold Unshut
      rw [hwrite]
      exact Extends.one (by simp) _

theorem connectDestroyedAfter_unshut (c : Conn) (saw : Bool) (us : List UserCall) :
    Unshut c (c.connectDestroyedAfter saw us) := by
  cases saw with
  | true =>
    have hdown := unshut_of_extends (notifyDown_extends c us) id
    exact hdown.trans (Extends.one (by simp) _)
  | false => exact Extends.one (by simp) _

theorem not_issued {c c' : Conn} (h : Unshut c c') :
    .shutdownWrite ∉ c'.trace.drop c.trace.length := by
  rcases h with ⟨es, hes, hnone⟩
  rw [hes, List.drop_left]
  intro hmem
  exact hnone _ hmem rfl

/-! ## Operations that store `KDisconnecting` -/

/-- Where the operation stores `KDisconnecting`, it queues `shutdownInLoop`. -/
def HandsOver (c c' : Conn) : Prop :=
  ∃ es, c'.trace = c.trace ++ es ∧
    (.setState .kDisconnecting ∈ es → .queueInLoop .shutdownInLoop ∈ es)

theorem HandsOver.trans {c c' c'' : Conn} (h : HandsOver c c') (h' : HandsOver c' c'') :
    HandsOver c c'' := by
  rcases h with ⟨es, hes, hqueues⟩
  rcases h' with ⟨es', hes', hqueues'⟩
  refine ⟨es ++ es', by rw [hes', hes, List.append_assoc], ?_⟩
  intro hmem
  rcases List.mem_append.mp hmem with hmem | hmem
  · exact List.mem_append_left _ (hqueues hmem)
  · exact List.mem_append_right _ (hqueues' hmem)

theorem handsOver_of_extends {c c' : Conn} {Q : Effect → Prop} (h : Extends Q c.trace c'.trace)
    (hQ : ¬ Q (.setState .kDisconnecting)) : HandsOver c c' := by
  rcases h with ⟨es, hes, hall⟩
  exact ⟨es, hes, fun hmem => absurd (hall _ hmem) hQ⟩

theorem emit_handsOver (c : Conn) {e : Effect} (he : e ≠ .setState .kDisconnecting) :
    HandsOver c (c.emit e) := by
  refine ⟨[e], rfl, ?_⟩
  intro hmem
  exact absurd (List.mem_singleton.mp hmem).symm he

theorem userCall_handsOver (c : Conn) (u : UserCall) : HandsOver c (c.userCall u) := by
  by_cases hstate : c.tcp.state = .kConnected
  · cases u with
    | send data w =>
      simp only [userCall, send, if_pos hstate]
      exact handsOver_of_extends (sendInLoop_extends c data w) id
    | shutdown =>
      simp only [userCall, shutdown, if_pos hstate]
      exact ⟨[.setState .kDisconnecting, .queueInLoop .shutdownInLoop], by simp, by simp⟩
    | retrieve | retrieveAll | retrieveAllAsString =>
      exact emit_handsOver (c.setInputBuffer _) (by simp)
  · exact handsOver_of_extends (userCall_onlyConsumes hstate u).trace id

theorem userCalls_handsOver (c : Conn) (us : List UserCall) : HandsOver c (c.userCalls us) := by
  induction us generalizing c with
  | nil => exact ⟨[], by simp [userCalls], by simp⟩
  | cons u us ih => exact (userCall_handsOver c u).trans (ih _)

theorem handleRead_handsOver (c : Conn) (a : Answers) : HandsOver c (c.handleRead a) := by
  have hinput : ∀ chunk, HandsOver c (c.readInput chunk) :=
    fun chunk => emit_handsOver (c.setInputBuffer _) (by simp)
  have hclose : ∀ d : Conn, HandsOver d (d.handleClose a.onConnection) :=
    fun d => handsOver_of_extends (handleClose_extends d a.onConnection) (by simp [IsClosing])
  rcases handleRead_cases c a with ⟨chunk, hread⟩ | ⟨chunk, hread⟩ | ⟨e, hread⟩
  · rw [hread]
    have hcalled := emit_handsOver (c.readInput chunk) (e := .messageCallback) (by simp)
    exact ((hinput chunk).trans hcalled).trans (userCalls_handsOver _ a.onMessage)
  · rw [hread]
    exact (hinput chunk).trans (hclose _)
  · rw [hread]
    exact (emit_handsOver c (by simp)).trans (hclose _)

theorem runPart_handsOver (c : Conn) (p : Part) (a : Answers) : HandsOver c (c.runPart p a) := by
  have hclose : ∀ d : Conn, HandsOver d (d.handleClose a.onConnection) :=
    fun d => handsOver_of_extends (handleClose_extends d a.onConnection) (by simp [IsClosing])
  cases p with
  | close => exact hclose c
  | error =>
    rcases handleError_eq c a.sockOpt a.onConnection with ⟨e, he⟩
    rw [runPart, he]
    exact (emit_handsOver c (by simp)).trans (hclose _)
  | read => exact handleRead_handsOver c a
  | write => exact handsOver_of_extends (handleWrite_extends c a.write) id

theorem connectDestroyedAfter_handsOver (c : Conn) (saw : Bool) (us : List UserCall) :
    HandsOver c (c.connectDestroyedAfter saw us) := by
  have hremove : ∀ d : Conn, HandsOver d d.removeChannel :=
    fun d => ⟨[.removeChannel], rfl, by simp⟩
  cases saw with
  | true =>
    have hdown := handsOver_of_extends (notifyDown_extends c us) (by simp [IsClosing])
    exact hdown.trans (hremove _)
  | false => exact hremove c

theorem connectEstablished_handsOver (c : Conn) (us : List UserCall) :
    HandsOver c (c.connectEstablished us) := by
  have hup : HandsOver c ((((c.setState .kConnected).enableReading).emit
      (.connectionCallback true))) := by
    refine ⟨[.setState .kConnected, .connectionCallback true], ?_, by simp⟩
    simp [enableReading]
  exact hup.trans (userCalls_handsOver _ us)

end Conn

namespace World

/-! ## Along a run -/

theorem open_of_step {w : World} (h : w.Inv) {e : Label} (hopen : (w.step e).conn.Open) :
    w.conn.Open := by
  constructor
  · intro hmem
    exact hopen.1 (mem_trace_step h e hmem)
  · intro hmem
    exact hopen.2 (mem_trace_step h e hmem)

theorem connectDestroyedAfter_not_open (c : Conn) (saw : Bool) (us : List UserCall) :
    ¬ (c.connectDestroyedAfter saw us).Open := by
  intro hopen
  refine hopen.2 ?_
  cases saw with
  | true => simp [Conn.connectDestroyedAfter, Conn.removeChannel]
  | false => simp [Conn.connectDestroyedAfter, Conn.removeChannel]

theorem poised_step {w : World} (h : w.Inv) (hpoised : w.conn.Poised) {e : Label}
    (hopen : (w.step e).conn.Open) : (w.step e).conn.Poised := by
  by_cases hsend : ∀ buf a, ¬ w.RunsSend buf a e
  · have hstep := connStep h hsend
    generalize (w.step e).conn = c at hstep hopen
    cases hstep with
    | same => exact hpoised
    | shutdownStore => exact ⟨hpoised.writing, fun _ => rfl⟩
    | part p rest a => exact Conn.runPart_poised hpoised p a hopen
    | userCall u => exact Conn.userCall_poised hpoised u
    | shutdownInLoop =>
      exact hpoised.of_extends (by rw [Conn.shutdownInLoop_tcp])
        (by unfold Conn.isWriting; rw [Conn.shutdownInLoop_tcp]) (by rw [Conn.shutdownInLoop_tcp])
        (Conn.shutdownInLoop_extends _) (by simp)
    | destroyRest saw us => exact absurd hopen (connectDestroyedAfter_not_open _ saw us)
  · push Not at hsend
    rcases hsend with ⟨buf, a, hrun⟩
    rw [step_of_runsSend hrun]
    exact Conn.sendInLoop_poised hpoised _ _

theorem execute_pc (w : World) (f : Functor) (a : Conn.Answers) : (w.execute f a).pc = w.pc := by
  cases f <;> rfl

/-- While the connection is open it is poised; outside `doPendingFunctors`
there is no batch. -/
structure OpenInv (w : World) : Prop where
  inv : w.Inv
  poised : w.conn.Open → w.conn.Poised
  batch : w.pc = .functors ∨ w.batch = []

theorem upConn_poised (self fd : Nat) (wc hw : Bool) (mark : Nat) (us : List UserCall) :
    (Conn.upConn self fd wc hw mark us).Poised := by
  unfold Conn.upConn Conn.connectEstablished Conn.connectionCallback
  refine Conn.userCalls_poised ?_ us
  constructor
  · have hempty : (Buffer.new initialSize).readable = [] := by decide
    have hnone : (Channel.new self fd).events = Channel.noneEvent := rfl
    simp [Conn.enableReading, Conn.new, TcpConnection.new, hempty, hnone]
  · simp [Conn.enableReading, Conn.new]

theorem established_openInv (self fd : Nat) (wc hw : Bool) (mark : Nat) (us : List UserCall)
    (mem : Nat → Byte) : (established self fd wc hw mark us mem).OpenInv where
  inv := established_inv self fd wc hw mark us mem
  poised _ := upConn_poised self fd wc hw mark us
  batch := Or.inl rfl

theorem OpenInv.step {w : World} (h : w.OpenInv) (e : Label) : (w.step e).OpenInv := by
  refine ⟨h.inv.step e, ?_, ?_⟩
  · intro hopen
    exact poised_step h.inv (h.poised (open_of_step h.inv hopen)) hopen
  · refine covers.elim (P := fun w' => w'.pc = .functors ∨ w'.batch = []) h.batch ?_
    intro w' hstep
    cases hstep with
    | poll revents hdest hpc =>
      right
      rcases h.batch with hfunctors | hbatch
      · simp [hpc] at hfunctors
      · exact hbatch
    | handle revents hdest hpc | part _ _ _ hdest hpc | handled hdest hpc =>
      right
      rcases h.batch with hfunctors | hbatch
      · simp [hpc] at hfunctors
      · exact hbatch
    | swap => exact Or.inl rfl
    | functor f rest a hdest hpc hbatch =>
      left
      rw [execute_pc]
      exact hpc
    | endFunctors hdest hpc hbatch => exact Or.inr hbatch
    | _ => exact h.batch

/-! ## Not too early -/

/-- The step issues `SHUT_WR`. -/
def IssuesShutdownWrite (w : World) (e : Label) : Prop :=
  .shutdownWrite ∈ (w.step e).conn.trace.drop w.conn.trace.length

/-- Only the two half-closing steps issue it. -/
theorem halfCloses_of_issues {w : World} (h : w.Inv) {e : Label}
    (hissues : w.IssuesShutdownWrite e) : w.HalfCloses e := by
  by_contra hclose
  refine Conn.not_issued ?_ hissues
  -- the functor of a `send` comes last, it issues none
  by_cases hsend : ∀ buf a, ¬ w.RunsSend buf a e
  · have hstep := connStep h hsend
    generalize (w.step e).conn = c at hstep
    cases hstep with
    | same => exact Extends.refl _ _
    | shutdownStore => exact Extends.one (by simp) _
    | part p rest a hdest hpc =>
      cases p with
      | close => exact Conn.handleClose_unshut _ _
      | error =>
        rcases Conn.handleError_eq w.conn a.sockOpt a.onConnection with ⟨e, he⟩
        rw [Conn.runPart, he]
        exact (Conn.emit_unshut _ (by simp)).trans (Conn.handleClose_unshut _ _)
      | read => exact Conn.handleRead_unshut _ _
      -- `handleWrite` does, when it drains the buffer in `KDisconnecting`
      | write =>
        refine Conn.handleWrite_unshut ?_
        intro hdrains hstate
        exact hclose ⟨hdest, ⟨rest, hpc⟩, hdrains, hstate⟩
    | userCall u => exact Conn.unshut_of_extends (Conn.userCall_extends _ u) id
    | shutdownInLoop a hdest hpc hhead =>
      have hwriting : w.conn.isWriting = true := by
        by_contra hnot
        exact hclose ⟨hdest, hpc, hhead, by simpa using hnot⟩
      unfold Conn.shutdownInLoop
      rw [if_neg (by simp [hwriting])]
      exact Extends.refl _ _
    | destroyRest saw us => exact Conn.connectDestroyedAfter_unshut _ saw us
  · push Not at hsend
    rcases hsend with ⟨buf, a, hrun⟩
    rw [step_of_runsSend hrun]
    exact Conn.unshut_of_extends (Conn.sendInLoop_extends _ _ _) id

theorem readable_of_halfCloses {w : World} (h : w.OpenInv) (hopen : w.conn.Open) {e : Label}
    (hclose : w.HalfCloses e) : (w.step e).conn.tcp.outputBuffer.readable = [] := by
  rcases step_of_halfCloses hclose with ⟨hconn, hwriting, _⟩ | ⟨r, hconn, hdrains, _⟩
  · rw [hconn, Conn.shutdownInLoop_tcp]
    -- not writing, so nothing is left to write
    by_contra hne
    have hwriting' := (h.poised hopen).writing.mpr hne
    simp [hwriting] at hwriting'
  · rw [hconn]
    exact Conn.handleWrite_readable_of_drains hdrains

/-! ## Not forgotten -/

/-- `shutdownInLoop` is queued. -/
def ShutdownQueued (w : World) : Prop := .shutdownInLoop ∈ w.batch ++ w.pending

/-- The half-close has been issued, is queued, or falls to the `handleWrite`
that drains the output buffer. -/
def Handled (w : World) : Prop :=
  w.ShutdownQueued ∨ .shutdownWrite ∈ w.conn.trace ∨
    w.conn.isWriting = true ∧ w.conn.tcp.state = .kDisconnecting

theorem Handled.push {w : World} (h : w.Handled) (f : Functor) : (w.push f).Handled := by
  rcases h with hqueued | hrest
  · left
    rw [ShutdownQueued, push_batch, push_pending, ← List.append_assoc]
    exact List.mem_append_left _ hqueued
  · exact Or.inr hrest

/-- A step of the loop thread that leaves a writing connection writing. -/
theorem Handled.withConn {w : World} (h : w.Handled) {c : Conn}
    (hmem : .shutdownWrite ∈ w.conn.trace → .shutdownWrite ∈ c.trace)
    (hduty : w.conn.isWriting = true → w.conn.tcp.state = .kDisconnecting →
      .shutdownWrite ∈ c.trace ∨ c.isWriting = true ∧ c.tcp.state = .kDisconnecting) :
    (w.withConn c).Handled := by
  rcases h with hqueued | hissued | ⟨hwriting, hstate⟩
  · left
    show Functor.shutdownInLoop ∈ w.batch ++ (w.pending ++ _)
    rw [← List.append_assoc]
    exact List.mem_append_left _ hqueued
  · exact Or.inr (Or.inl (hmem hissued))
  · exact Or.inr (hduty hwriting hstate)

theorem onlyConsumes_duty {c c' : Conn} (h : Conn.OnlyConsumes c c') (hwriting : c.isWriting = true)
    (hstate : c.tcp.state = .kDisconnecting) :
    c'.isWriting = true ∧ c'.tcp.state = .kDisconnecting := by
  refine ⟨?_, h.state.trans hstate⟩
  unfold Conn.isWriting
  rw [h.channel]
  exact hwriting

theorem runPart_duty {c : Conn} (h : c.Poised) (p : Conn.Part) (a : Conn.Answers)
    (hopen : (c.runPart p a).Open) (hwriting : c.isWriting = true)
    (hstate : c.tcp.state = .kDisconnecting) :
    .shutdownWrite ∈ (c.runPart p a).trace ∨
      (c.runPart p a).isWriting = true ∧ (c.runPart p a).tcp.state = .kDisconnecting := by
  rcases Conn.runPart_open_cases hopen with ⟨chunk, hread⟩ | rfl
  · right
    rw [hread]
    refine onlyConsumes_duty (Conn.userCalls_onlyConsumes ?_ a.onMessage) hwriting hstate
    simp [hstate]
  · by_cases hdrains : c.drains a.write = true
    · -- drained: this is the call that half-closes
      left
      exact (Conn.handleWrite_shutdownWrite_iff _ _).mpr (Or.inr ⟨hdrains, hstate⟩)
    · right
      refine ⟨(Conn.handleWrite_of_not_drains h hwriting (by simpa using hdrains)).1, ?_⟩
      rw [Conn.runPart, Conn.handleWrite_state]
      exact hstate

/-- Taking another functor from the batch. -/
theorem Handled.pop {w : World} (h : w.Handled) {f : Functor} {rest : List Functor}
    (hbatch : w.batch = f :: rest) (hf : f ≠ .shutdownInLoop) :
    { w with batch := rest }.Handled := by
  rcases h with hqueued | hrest
  · left
    rw [ShutdownQueued, hbatch, List.cons_append] at hqueued
    rcases List.mem_cons.mp hqueued with heq | hmem
    · exact absurd heq.symm hf
    · exact hmem
  · exact Or.inr hrest

/-- The functor itself: with the channel writing it leaves its duty to
`handleWrite`. -/
theorem handled_shutdownInLoop {w : World} (hpoised : w.conn.Poised)
    (hstored : .setState .kDisconnecting ∈ w.conn.trace) :
    (w.withConn w.conn.shutdownInLoop).Handled := by
  right
  by_cases hwriting : w.conn.isWriting = true
  · -- it returns at once and leaves the duty to `handleWrite`
    right
    have hsame : w.conn.shutdownInLoop = w.conn := by
      unfold Conn.shutdownInLoop
      rw [if_neg (by simp [hwriting])]
    rw [withConn_conn, hsame]
    exact ⟨hwriting, hpoised.state hstored⟩
  · left
    exact (Conn.shutdownInLoop_shutdownWrite_iff _).mpr (Or.inr (by simpa using hwriting))

theorem Handled.execute {w : World} (h : w.OpenInv) (hopen : w.conn.Open) {f : Functor}
    {rest : List Functor} (hbatch : w.batch = f :: rest) (hhandled : w.Handled)
    (a : Conn.Answers) : ({ w with batch := rest }.execute f a).Handled := by
  have hjustified : f.Justified w.conn := h.inv.queued f (by simp [hbatch])
  cases f with
  | sendInLoop buf =>
    refine (hhandled.pop hbatch (by simp)).withConn ?_ ?_
    · exact (Conn.sendInLoop_extends _ _ _).mem_of_mem
    · intro hwriting hstate
      right
      exact ⟨Conn.sendInLoop_isWriting hwriting _ _, by rw [Conn.sendInLoop_state]; exact hstate⟩
  | shutdownInLoop =>
    exact handled_shutdownInLoop (w := { w with batch := rest }) (h.poised hopen) hjustified
  | connectEstablished => exact hjustified.elim
  | removeConnectionInLoop => exact (hhandled.pop hbatch (by simp)).push _
  | _ => exact hhandled.pop hbatch (by simp)

theorem Handled.step {w : World} (h : w.OpenInv) (hhandled : w.Handled) {e : Label}
    (hopen : (w.step e).conn.Open) : (w.step e).Handled := by
  have hbefore := open_of_step h.inv hopen
  have hpoised := h.poised hbefore
  rcases step_cases w e with hstutter | hstep
  · rw [hstutter]
    exact hhandled
  generalize w.step e = w' at hstep hopen
  cases hstep with
  | send | shutdown | store | poll | handle | handled | connectDestroyed => exact hhandled
  | sendQueue tid buf hpc =>
    have hpush := hhandled.push (.sendInLoop buf)
    exact hpush
  | shutdownQueue tid hpc =>
    have hpush := hhandled.push .shutdownInLoop
    exact hpush
  | queueDestroyed => exact hhandled.push _
  | shutdownStore tid hpc =>
    rcases hhandled with hqueued | hissued | ⟨hwriting, _⟩
    · exact Or.inl hqueued
    · exact Or.inr (Or.inl (List.mem_append_left _ hissued))
    · exact Or.inr (Or.inr ⟨hwriting, rfl⟩)
  | part p rest a hdest hpc =>
    have hpart : (w.withConn (w.conn.runPart p a)).Handled :=
      hhandled.withConn (Conn.runPart_moves _ p a).mem_trace (runPart_duty hpoised p a hopen)
    exact hpart
  | userCall u hdest hpc =>
    refine hhandled.withConn (Conn.userCall_moves _ u).mem_trace ?_
    intro hwriting hstate
    -- a second `shutdown` does nothing, and a `send` only drops its data
    have hleft : w.conn.tcp.state ≠ .kConnected := by simp [hstate]
    exact Or.inr (onlyConsumes_duty (Conn.userCall_onlyConsumes hleft u) hwriting hstate)
  | swap hdest hpc =>
    rcases hhandled with hqueued | hrest
    · left
      -- the old batch is empty, the pending functors are the new one
      rcases h.batch with hfunctors | hempty
      · simp [hpc] at hfunctors
      · simpa [ShutdownQueued, hempty] using hqueued
    · exact Or.inr hrest
  | functor f rest a hdest hpc hbatch => exact Handled.execute h hbefore hbatch hhandled a
  | endFunctors hdest hpc hbatch => exact hhandled
  | destroyRest saw us hdest => exact absurd hopen (connectDestroyedAfter_not_open _ saw us)

/-! ## Calls that have returned -/

/-- A `shutdown` that has stored `KDisconnecting` returns with the step: the loop thread
has made the call, in one of its handlers or functors, or another thread that has made
the store has also been through `queueInLoop`. -/
def EndsShutdown (w : World) (e : Label) : Prop :=
  (∀ tid, e ≠ .shutdownStore tid) ∧
      .setState .kDisconnecting ∈ (w.step e).conn.trace.drop w.conn.trace.length ∨
    ∃ tid, e = .shutdownQueue tid ∧ w.threads tid = .shutdownStored

/-- Some `shutdown` that stored `KDisconnecting` has returned. The first ones can come
from the connection callback in `connectEstablished`. -/
def ShutdownReturned (w₀ : World) (es : List Label) : Prop :=
  .setState .kDisconnecting ∈ w₀.conn.trace ∨ SomeStep step w₀ EndsShutdown es

/-- What the loop thread queues goes to the pending functors. -/
theorem pending_withConn {w : World} {c : Conn} (h : Conn.HandsOver w.conn c)
    (hmem : .setState .kDisconnecting ∈ c.trace.drop w.conn.trace.length) :
    .shutdownInLoop ∈ (w.withConn c).pending := by
  rcases h with ⟨es, hes, hqueues⟩
  rw [hes, List.drop_left] at hmem
  change Functor.shutdownInLoop ∈ w.pending ++ queuedFunctors (c.trace.drop w.conn.trace.length)
  rw [hes, List.drop_left]
  exact List.mem_append_right _ (mem_queuedFunctors.mpr (hqueues hmem))

theorem pending_execute {w : World} (f : Functor) (a : Conn.Answers)
    (hmem : .setState .kDisconnecting ∈ (w.execute f a).conn.trace.drop w.conn.trace.length) :
    .shutdownInLoop ∈ (w.execute f a).pending := by
  cases f with
  | sendInLoop buf =>
    exact pending_withConn (Conn.handsOver_of_extends (Conn.sendInLoop_extends _ _ _) id) hmem
  | shutdownInLoop =>
    exact pending_withConn
      (Conn.handsOver_of_extends (Conn.shutdownInLoop_extends _) (by simp)) hmem
  | connectEstablished =>
    exact pending_withConn (Conn.connectEstablished_handsOver _ a.onConnection) hmem
  | _ =>
    have hnil : .setState .kDisconnecting ∈ w.conn.trace.drop w.conn.trace.length := hmem
    rw [List.drop_length] at hnil
    exact absurd hnil List.not_mem_nil

/-- The functor is queued when the call returns. -/
theorem queued_of_ends {w : World} {e : Label} (h : w.EndsShutdown e) :
    (w.step e).ShutdownQueued := by
  refine List.mem_append_right _ ?_
  rcases h with ⟨hother, hmem⟩ | ⟨tid, rfl, hpc⟩
  · rcases step_cases w e with hstutter | hstep
    · rw [hstutter, List.drop_length] at hmem
      exact absurd hmem List.not_mem_nil
    generalize w.step e = w' at hstep hmem
    cases hstep with
    | shutdownStore tid hpc => exact absurd rfl (hother tid)
    | part p rest a hdest hpc => exact pending_withConn (Conn.runPart_handsOver _ p a) hmem
    | userCall u hdest hpc => exact pending_withConn (Conn.userCall_handsOver _ u) hmem
    | functor f rest a hdest hpc hbatch =>
      exact pending_execute (w := { w with batch := rest }) f a hmem
    | destroyRest saw us hdest =>
      exact pending_withConn (Conn.connectDestroyedAfter_handsOver _ saw us) hmem
    | _ =>
      have hnil : .setState .kDisconnecting ∈ w.conn.trace.drop w.conn.trace.length := hmem
      rw [List.drop_length] at hnil
      exact absurd hnil List.not_mem_nil
  · simp [World.step, hpc]

/-- A `shutdown` that has returned is taken care of. -/
theorem handled_of_returned {w₀ : World} (h₀ : w₀.OpenInv)
    (hstored : .setState .kDisconnecting ∈ w₀.conn.trace → .shutdownInLoop ∈ w₀.pending)
    {es : List Label} (hopen : (run step w₀ es).conn.Open) (hreturned : ShutdownReturned w₀ es) :
    (run step w₀ es).Handled := by
  induction es using List.reverseRecOn with
  | nil =>
    rcases hreturned with hmem | hsome
    · exact Or.inl (List.mem_append_right _ (hstored hmem))
    · exact absurd hsome someStep_nil
  | append_singleton es e ih =>
    have hinv : (run step w₀ es).OpenInv := run_invariant OpenInv (fun _ e h => h.step e) h₀ es
    rw [run_concat] at hopen ⊢
    have hold : ShutdownReturned w₀ es → ((run step w₀ es).step e).Handled := fun hearlier =>
      (ih (open_of_step hinv.inv hopen) hearlier).step hinv hopen
    rcases hreturned with hmem | hsome
    · exact hold (Or.inl hmem)
    · rcases someStep_concat.mp hsome with hearlier | hends
      · exact hold (Or.inr hearlier)
      · -- the call returns in this step
        exact Or.inl (queued_of_ends hends)

theorem established_stored {self fd : Nat} {wc hw : Bool} {mark : Nat} {us : List UserCall}
    (h : .setState .kDisconnecting ∈ (Conn.upConn self fd wc hw mark us).trace) :
    .shutdownInLoop ∈ queuedFunctors (Conn.upConn self fd wc hw mark us).trace := by
  rcases Conn.connectEstablished_handsOver (Conn.new self fd wc hw mark) us with
    ⟨es, hes, hqueues⟩
  have hnew : (Conn.new self fd wc hw mark).trace = [] := rfl
  rw [hnew, List.nil_append] at hes
  rw [Conn.upConn, hes] at h ⊢
  exact mem_queuedFunctors.mpr (hqueues h)

end World

open World

/-- As long as the connection is open, `SHUT_WR` is issued only with an empty
output buffer; and once a `shutdown` that stored `KDisconnecting` has returned and
no `shutdownInLoop` is queued, it has been issued or is left to the `handleWrite`
that drains. -/
theorem graceful_half_close (self fd : Nat) (wc hw : Bool) (mark : Nat)
    (onConnection : List UserCall) (mem : Nat → Byte) (es : List Label) :
    EachStep step (established self fd wc hw mark onConnection mem)
      (fun w e => w.conn.Open → w.IssuesShutdownWrite e →
        (w.step e).conn.tcp.outputBuffer.readable = []) es ∧
    Throughout (fun pre =>
      let w := run step (established self fd wc hw mark onConnection mem) pre
      w.conn.Open → ShutdownReturned (established self fd wc hw mark onConnection mem) pre →
        ¬ w.ShutdownQueued →
          .shutdownWrite ∈ w.conn.trace ∨
          w.conn.tcp.outputBuffer.readable ≠ [] ∧ w.conn.isWriting = true ∧
            ∀ r, w.conn.drains r = true → .shutdownWrite ∈ (w.conn.handleWrite r).trace) es := by
  have h₀ := established_openInv self fd wc hw mark onConnection mem
  constructor
  · intro pre e _ hopen hissues
    have hinv := run_invariant OpenInv (fun _ e h => h.step e) h₀ pre
    exact readable_of_halfCloses hinv hopen (halfCloses_of_issues hinv.inv hissues)
  · intro pre _ w hopen hreturned hnot
    have hinv : w.OpenInv := run_invariant OpenInv (fun _ e h => h.step e) h₀ pre
    rcases handled_of_returned h₀ established_stored hopen hreturned with
      hin | hissued | ⟨hwriting, hstate⟩
    · exact absurd hin hnot
    · exact Or.inl hissued
    · right
      -- still writing, so bytes are left
      refine ⟨(hinv.poised hopen).writing.mp hwriting, hwriting, ?_⟩
      intro r hdrains
      exact (Conn.handleWrite_shutdownWrite_iff _ _).mpr (Or.inr ⟨hdrains, hstate⟩)

end EchoServer
