import EchoServer.Locality

/-!
# Operations look at the connection only

What an operation does to a connection, and what it reports, is decided by the
connection's own state: neither the poller nor the past comes into it. So an
operation does the same to a connection that is looked at with another poller and
with a history.

* `Alike`: the same connection, with a history before the trace;
* `Uniform`: the operation keeps this; one lemma for each operation;
* `OwnOp`: besides, it reaches no more of the poller than the connection's entries.
-/

namespace EchoServer

namespace Conn

/-- The connection is the same, and `past` is put before the trace. -/
structure Alike (past : List Effect) (c d : Conn) : Prop where
  tcp : d.tcp = c.tcp
  trace : d.trace = past ++ c.trace

/-- The operation does the same to connections that are alike. -/
def Uniform (op : Conn → Conn) : Prop :=
  ∀ past c d, Alike past c d → Alike past (op c) (op d)

/-! ## How operations are put together -/

theorem uniform_id : Uniform fun c => c := fun _ _ _ h => h

theorem Uniform.comp {f g : Conn → Conn} (hf : Uniform f) (hg : Uniform g) :
    Uniform fun c => g (f c) := by
  intro past c d h
  exact hg past _ _ (hf past c d h)

/-- What is done with a value depends on the value, and the value on the connection. -/
theorem Uniform.bind {α : Type} (v : TcpConnection → α) {f : α → Conn → Conn}
    (hf : ∀ a, Uniform (f a)) : Uniform fun c => f (v c.tcp) c := by
  intro past c d h
  simp only [h.tcp]
  exact hf (v c.tcp) past c d h

theorem Uniform.ite (p : TcpConnection → Prop) [DecidablePred p] {f g : Conn → Conn}
    (hf : Uniform f) (hg : Uniform g) : Uniform fun c => if p c.tcp then f c else g c := by
  intro past c d h
  simp only [h.tcp]
  split
  · exact hf past c d h
  · exact hg past c d h

/-! ## The parts of an operation -/

theorem uniform_emit (e : Effect) : Uniform (·.emit e) := by
  intro past c d h
  refine ⟨h.tcp, ?_⟩
  simp only [emit, h.trace, List.append_assoc]

theorem uniform_queueInLoop (f : Functor) : Uniform (·.queueInLoop f) := uniform_emit _

theorem uniform_setState (s : StateE) : Uniform (·.setState s) := by
  intro past c d h
  refine ⟨?_, ?_⟩
  · simp only [setState, h.tcp]
  · simp only [setState, h.trace, List.append_assoc]

theorem uniform_setInputBuffer (b : Buffer) : Uniform (·.setInputBuffer b) := by
  intro past c d h
  refine ⟨?_, h.trace⟩
  simp only [setInputBuffer, h.tcp]

theorem uniform_setOutputBuffer (b : Buffer) : Uniform (·.setOutputBuffer b) := by
  intro past c d h
  refine ⟨?_, h.trace⟩
  simp only [setOutputBuffer, h.tcp]

/-- The channel after an update does not depend on the poller. -/
theorem setEvents_channel_eq (p q : EPollPoller) (ch : Channel) (events : EventMask) :
    (p.setEvents ch events).2 = (q.setEvents ch events).2 := by
  unfold EPollPoller.setEvents EPollPoller.updateChannel
  split
  · rfl
  · rfl
  · split <;> rfl

theorem uniform_setEvents (events : EventMask) : Uniform (·.setEvents events) := by
  intro past c d h
  refine ⟨?_, h.trace⟩
  simp only [setEvents, h.tcp, setEvents_channel_eq d.poller c.poller]

theorem uniform_removeChannel : Uniform (·.removeChannel) := by
  intro past c d h
  refine ⟨?_, ?_⟩
  · simp only [removeChannel, h.tcp, EPollPoller.removeChannel_channel]
  · simp only [removeChannel, h.trace, List.append_assoc]

theorem uniform_enableReading : Uniform (·.enableReading) :=
  Uniform.bind (fun t => t.channel.events ||| Channel.readEvent) uniform_setEvents

theorem uniform_enableWriting : Uniform (·.enableWriting) :=
  Uniform.bind (fun t => t.channel.events ||| Channel.writeEvent) uniform_setEvents

theorem uniform_disableWriting : Uniform (·.disableWriting) :=
  Uniform.bind (fun t => t.channel.events &&& ~~~Channel.writeEvent) uniform_setEvents

theorem uniform_disableAll : Uniform (·.disableAll) := uniform_setEvents _

/-! ## Sending and shutting down -/

theorem uniform_directWrite (data : List Byte) (w : WriteResult) :
    Uniform (·.directWrite data w) := by
  cases w with
  | ok n =>
    exact Uniform.ite (fun t => data.length - (WriteResult.ok n).count data.length = 0 ∧
        t.writeCompleteCallback = true)
      ((uniform_emit _).comp (uniform_queueInLoop _)) (uniform_emit _)
  | err e => exact uniform_emit _

theorem uniform_tryDirectWrite (data : List Byte) (w : WriteResult) :
    Uniform (·.tryDirectWrite data w) :=
  Uniform.ite (fun t => (!t.channel.isWriting && t.outputBuffer.readableBytes == 0) = true)
    (uniform_directWrite data w) uniform_id

theorem uniform_checkHighWater (n : Nat) : Uniform (·.checkHighWater n) := by
  refine Uniform.ite (fun t => t.outputBuffer.readableBytes + n ≥ t.highWaterMark ∧
      t.outputBuffer.readableBytes < t.highWaterMark ∧ t.highWaterMarkCallback = true) ?_ uniform_id
  exact Uniform.bind (fun t => Functor.highWaterMarkCallback (t.outputBuffer.readableBytes + n))
    uniform_queueInLoop

theorem uniform_ensureWriting : Uniform (·.ensureWriting) :=
  Uniform.ite (fun t => (!t.channel.isWriting) = true) uniform_enableWriting uniform_id

theorem uniform_bufferOutput (rest : List Byte) : Uniform (·.bufferOutput rest) := by
  have hstore : ∀ b : Buffer, Uniform fun c =>
      ((c.checkHighWater rest.length).setOutputBuffer b).ensureWriting := by
    intro b
    exact ((uniform_checkHighWater _).comp (uniform_setOutputBuffer b)).comp uniform_ensureWriting
  exact Uniform.bind (fun t => t.outputBuffer.append rest) hstore

theorem uniform_sendInLoop (data : List Byte) (w : WriteResult) :
    Uniform (·.sendInLoop data w) := by
  -- `nwrote` and `faultError`, as the connection has them
  let direct (t : TcpConnection) : Bool :=
    !t.channel.isWriting && t.outputBuffer.readableBytes == 0
  let nwrote (t : TcpConnection) : Nat := if direct t then w.count data.length else 0
  refine Uniform.ite (fun t => (!(direct t && w.isFault) &&
    decide (0 < data.length - nwrote t)) = true) ?_ (uniform_tryDirectWrite data w)
  have hrest : ∀ n, Uniform fun c => (c.tryDirectWrite data w).bufferOutput (data.drop n) := by
    intro n
    exact (uniform_tryDirectWrite data w).comp (uniform_bufferOutput _)
  exact Uniform.bind nwrote hrest

theorem uniform_send (data : List Byte) (w : WriteResult) : Uniform (·.send data w) :=
  Uniform.ite (fun t => t.state = .kConnected) (uniform_sendInLoop data w) uniform_id

theorem uniform_shutdownInLoop : Uniform (·.shutdownInLoop) :=
  Uniform.ite (fun t => (!t.channel.isWriting) = true) (uniform_emit _) uniform_id

theorem uniform_shutdown : Uniform (·.shutdown) :=
  Uniform.ite (fun t => t.state = .kConnected)
    ((uniform_setState _).comp (uniform_queueInLoop _)) uniform_id

/-! ## User code -/

/-- A new input buffer, and the bytes taken from the old one. -/
theorem uniform_consume (b : Buffer → Buffer) (bytes : Buffer → List Byte) :
    Uniform fun c => (c.setInputBuffer (b c.tcp.inputBuffer)).emit
      (.consumed (bytes c.tcp.inputBuffer)) := by
  refine Uniform.bind (fun t => t.inputBuffer)
    (f := fun old c => (c.setInputBuffer (b old)).emit (.consumed (bytes old))) ?_
  intro old
  exact (uniform_setInputBuffer _).comp (uniform_emit _)

theorem uniform_userCall (u : UserCall) : Uniform (·.userCall u) := by
  cases u with
  | send data w => exact uniform_send data w
  | shutdown => exact uniform_shutdown
  | retrieve len => exact uniform_consume (·.retrieve len) (·.readable.take len)
  | retrieveAll => exact uniform_consume (·.retrieveAll) (·.readable)
  | retrieveAllAsString =>
    exact uniform_consume (·.retrieveAllAsString.2) (·.retrieveAllAsString.1)

theorem uniform_userCalls (us : List UserCall) : Uniform (·.userCalls us) := by
  induction us with
  | nil => exact uniform_id
  | cons u us ih => exact (uniform_userCall u).comp ih

theorem uniform_connectionCallback (us : List UserCall) : Uniform (·.connectionCallback us) := by
  have hcall : ∀ e, Uniform fun c => (c.emit e).userCalls us := by
    intro e
    exact (uniform_emit e).comp (uniform_userCalls us)
  exact Uniform.bind (fun t => Effect.connectionCallback t.connected) hcall

theorem uniform_messageCallback (us : List UserCall) : Uniform (·.messageCallback us) :=
  (uniform_emit _).comp (uniform_userCalls us)

/-! ## Handlers -/

theorem uniform_handleClose (us : List UserCall) : Uniform (·.handleClose us) :=
  (((uniform_setState _).comp uniform_disableAll).comp (uniform_connectionCallback us)).comp
    (uniform_emit _)

theorem uniform_handleError (opt : SockOptResult) (us : List UserCall) :
    Uniform (·.handleError opt us) := by
  cases opt with
  | err e => exact (uniform_emit _).comp (uniform_handleClose us)
  | ok e => exact (uniform_emit _).comp (uniform_handleClose us)

theorem uniform_readInput (chunk : List Byte) : Uniform (·.readInput chunk) := by
  refine Uniform.bind (fun t => t.inputBuffer) (f := fun b c =>
    (c.setInputBuffer (b.readFd (chunk.take b.readFdCapacity))).emit
      (.received (chunk.take b.readFdCapacity))) ?_
  intro b
  exact (uniform_setInputBuffer _).comp (uniform_emit _)

theorem uniform_handleRead (a : Answers) : Uniform (·.handleRead a) := by
  unfold handleRead
  split
  · rename_i chunk _
    exact Uniform.ite (fun t => 0 < (chunk.take t.inputBuffer.readFdCapacity).length)
      ((uniform_readInput chunk).comp (uniform_messageCallback _))
      ((uniform_readInput chunk).comp (uniform_handleClose _))
  · exact uniform_handleError _ _

theorem uniform_afterDrain : Uniform (·.afterDrain) := by
  have hcomplete : Uniform (·.queueWriteComplete) :=
    Uniform.ite (fun t => t.writeCompleteCallback = true) (uniform_queueInLoop _) uniform_id
  have hshutdown : Uniform (·.shutdownIfDisconnecting) :=
    Uniform.ite (fun t => t.state = .kDisconnecting) uniform_shutdownInLoop uniform_id
  exact (uniform_disableWriting.comp hcomplete).comp hshutdown

theorem uniform_afterWrite (n : Nat) : Uniform (·.afterWrite n) := by
  have hretrieve : Uniform (·.retrieveOutput n) :=
    Uniform.bind (fun t => t.outputBuffer.retrieve n) uniform_setOutputBuffer
  exact Uniform.ite (fun t => (t.outputBuffer.retrieve n).readableBytes = 0)
    (hretrieve.comp uniform_afterDrain) hretrieve

theorem uniform_handleWrite (w : WriteResult) : Uniform (·.handleWrite w) := by
  have hwrite : ∀ offered : List Byte, Uniform fun c =>
      if 0 < w.toInt offered.length then
        (c.emit (.write offered w)).afterWrite (w.toInt offered.length).toNat
      else c.emit (.write offered w) := by
    intro offered
    split
    · exact (uniform_emit _).comp (uniform_afterWrite _)
    · exact uniform_emit _
  exact Uniform.ite (fun t => t.channel.isWriting = true)
    (Uniform.bind (fun t => t.outputBuffer.writeFdOffered) hwrite) uniform_id

theorem uniform_runPart (p : Part) (a : Answers) : Uniform (·.runPart p a) := by
  cases p with
  | close => exact uniform_handleClose _
  | error => exact uniform_handleError _ _
  | read => exact uniform_handleRead a
  | write => exact uniform_handleWrite _

/-! ## Establishing and destroying -/

theorem uniform_connectEstablished (us : List UserCall) : Uniform (·.connectEstablished us) :=
  ((uniform_setState _).comp uniform_enableReading).comp (uniform_connectionCallback us)

theorem uniform_connectDestroyed (us : List UserCall) : Uniform (·.connectDestroyed us) := by
  have hafter : ∀ saw, Uniform (·.connectDestroyedAfter saw us) := by
    intro saw
    cases saw with
    | true =>
      exact (((uniform_setState _).comp uniform_disableAll).comp
        (uniform_connectionCallback us)).comp uniform_removeChannel
    | false => exact uniform_removeChannel
  exact Uniform.bind (fun t => t.state == .kConnected) hafter

/-! ## What is registered -/

/-- Where the kernel watches the channel, its index says so. -/
def Watched (c : Conn) : Prop :=
  ∀ r, c.poller.epoll c.tcp.channel.fd = some r → r.ptr = c.tcp.channel.self →
    c.tcp.channel.index = .added

/-- What the kernel watches after it was watched before, or is the channel. -/
structure Registers (c d : Conn) : Prop where
  fd : d.tcp.channel.fd = c.tcp.channel.fd
  self : d.tcp.channel.self = c.tcp.channel.self
  epoll : ∀ fd r, d.poller.epoll fd = some r →
    c.poller.epoll fd = some r ∨ fd = c.tcp.channel.fd ∧ r.ptr = c.tcp.channel.self
  watched : c.Watched → d.Watched

theorem registers_of_eq {c d : Conn} (hchannel : d.tcp.channel = c.tcp.channel)
    (hpoller : d.poller = c.poller) : Registers c d where
  fd := by rw [hchannel]
  self := by rw [hchannel]
  epoll fd r hr := by
    rw [hpoller] at hr
    exact Or.inl hr
  watched h := by
    unfold Watched
    rw [hchannel, hpoller]
    exact h

theorem Registers.trans {c d e : Conn} (h : Registers c d) (h' : Registers d e) :
    Registers c e where
  fd := h'.fd.trans h.fd
  self := h'.self.trans h.self
  epoll fd r hr := by
    rcases h'.epoll fd r hr with hr | ⟨hfd, hptr⟩
    · exact h.epoll fd r hr
    · exact Or.inr ⟨hfd.trans h.fd, hptr.trans h.self⟩
  watched hc := h'.watched (h.watched hc)

theorem epollCtl_registers {epoll epoll' : Nat → Option Registration} {op : EpollOp}
    {fd fd' : Nat} {reg r : Registration} (h : epollCtl epoll op fd reg = some epoll')
    (hr : epoll' fd' = some r) : epoll fd' = some r ∨ fd' = fd ∧ r = reg := by
  by_cases hfd : fd' = fd
  · subst hfd
    unfold epollCtl at h
    split at h
    · obtain rfl := Option.some.inj h
      rw [Function.update_self, Option.some.injEq] at hr
      exact Or.inr ⟨rfl, hr.symm⟩
    · obtain rfl := Option.some.inj h
      rw [Function.update_self, Option.some.injEq] at hr
      exact Or.inr ⟨rfl, hr.symm⟩
    · obtain rfl := Option.some.inj h
      rw [Function.update_self] at hr
      cases hr
    · cases h
  · rw [EPollPoller.epollCtl_ne h hfd] at hr
    exact Or.inl hr

theorem update_registers {p : EPollPoller} {op : EpollOp} {ch : Channel} {fd : Nat}
    {r : Registration} (h : (p.update op ch).epoll fd = some r) :
    p.epoll fd = some r ∨ fd = ch.fd ∧ r.ptr = ch.self := by
  unfold EPollPoller.update at h
  split at h
  · rename_i epoll hctl
    rcases epollCtl_registers hctl h with hold | ⟨hfd, rfl⟩
    · exact Or.inl hold
    · exact Or.inr ⟨hfd, rfl⟩
  · split at h
    · exact Or.inl h
    · exact Or.inl h

/-- A descriptor is free after a `DEL`, whether it was registered or not. -/
theorem update_del_epoll (p : EPollPoller) (ch : Channel) :
    (p.update .del ch).epoll ch.fd = none := by
  unfold EPollPoller.update epollCtl
  cases hreg : p.epoll ch.fd with
  | none => simp [hreg]
  | some r => simp

/-- An update leaves the descriptor registered only with index `Added`. -/
theorem setEvents_index_of_epoll {p : EPollPoller} {ch : Channel} {events : EventMask}
    {r : Registration} (h : (p.setEvents ch events).1.epoll ch.fd = some r) :
    (p.setEvents ch events).2.index = .added := by
  cases hindex : ch.index with
  | new => simp [EPollPoller.setEvents, EPollPoller.updateChannel, hindex]
  | deleted => simp [EPollPoller.setEvents, EPollPoller.updateChannel, hindex]
  | added =>
    unfold EPollPoller.setEvents EPollPoller.updateChannel at h ⊢
    simp only [hindex] at h ⊢
    split
    · -- the registration is gone
      rename_i hnone
      rw [if_pos hnone] at h
      have hgone := update_del_epoll p ⟨ch.self, ch.fd, events, .deleted⟩
      rw [hgone] at h
      cases h
    · rfl

theorem setEvents_watched (c : Conn) (events : EventMask) : (c.setEvents events).Watched := by
  intro r hr _
  change (c.poller.setEvents c.tcp.channel events).1.epoll
    (c.poller.setEvents c.tcp.channel events).2.fd = some r at hr
  rw [EPollPoller.setEvents_fd] at hr
  exact setEvents_index_of_epoll hr

theorem removeChannel_watched {c : Conn} (h : c.Watched) : c.removeChannel.Watched := by
  intro r hr hptr
  change (c.poller.removeChannel c.tcp.channel).1.epoll
    (c.poller.removeChannel c.tcp.channel).2.fd = some r at hr
  change r.ptr = (c.poller.removeChannel c.tcp.channel).2.self at hptr
  rw [EPollPoller.removeChannel_channel] at hr hptr
  unfold EPollPoller.removeChannel at hr
  split at hr
  · have hgone := update_del_epoll
      { c.poller with channels := Function.update c.poller.channels c.tcp.channel.fd none }
      c.tcp.channel
    rw [hgone] at hr
    cases hr
  · rename_i hindex
    exact absurd (h r hr hptr) hindex

theorem setEvents_registers (c : Conn) (events : EventMask) : Registers c (c.setEvents events) where
  fd := EPollPoller.setEvents_fd _ _ _
  self := EPollPoller.setEvents_self _ _ _
  epoll fd r hr := by
    change (c.poller.setEvents c.tcp.channel events).1.epoll fd = some r at hr
    unfold EPollPoller.setEvents EPollPoller.updateChannel at hr
    split at hr
    · have hnew := update_registers hr
      exact hnew
    · have hnew := update_registers hr
      exact hnew
    · split at hr
      · have hnew := update_registers hr
        exact hnew
      · have hnew := update_registers hr
        exact hnew
  watched _ := setEvents_watched c events

theorem removeChannel_registers (c : Conn) : Registers c c.removeChannel where
  fd := by simp [removeChannel, EPollPoller.removeChannel_channel]
  self := by simp [removeChannel, EPollPoller.removeChannel_channel]
  epoll fd r hr := by
    change (c.poller.removeChannel c.tcp.channel).1.epoll fd = some r at hr
    unfold EPollPoller.removeChannel at hr
    split at hr
    · have hold := update_registers hr
      exact hold
    · exact Or.inl hr
  watched h := removeChannel_watched h

theorem notifyDown_registers (c : Conn) :
    Registers c (((c.setState .kDisconnected).disableAll).emit .down) := by
  have hstate : Registers c (c.setState .kDisconnected) := registers_of_eq rfl rfl
  exact (hstate.trans (setEvents_registers _ _)).trans (registers_of_eq rfl rfl)

theorem Moves.registers {c d : Conn} (h : Moves c d) : Registers c d := by
  induction h with
  | refl => exact registers_of_eq rfl rfl
  | emit _ _ ih => exact ih.trans (registers_of_eq rfl rfl)
  | setEvents events _ ih => exact ih.trans (setEvents_registers _ events)
  | setInputBuffer _ _ ih => exact ih.trans (registers_of_eq rfl rfl)
  | setOutputBuffer _ _ ih => exact ih.trans (registers_of_eq rfl rfl)
  | disconnecting _ ih => exact ih.trans (registers_of_eq rfl rfl)
  | queueShutdown _ _ ih => exact ih.trans (registers_of_eq rfl rfl)
  | notifyDown _ ih => exact ih.trans (notifyDown_registers _)

/-! ## Operations of a connection -/

/-- An operation that is decided by the connection, and reaches its own entries of
the poller only. -/
structure OwnOp (op : Conn → Conn) : Prop where
  uniform : Uniform op
  localized : ∀ c, Localized c (op c)
  registers : ∀ c, Registers c (op c)

theorem OwnOp.of_moves {op : Conn → Conn} (huniform : Uniform op)
    (hmoves : ∀ c, Moves c (op c)) : OwnOp op where
  uniform := huniform
  localized c := (hmoves c).localized
  registers c := (hmoves c).registers

theorem runPart_ownOp (p : Part) (a : Answers) : OwnOp (·.runPart p a) :=
  .of_moves (uniform_runPart p a) fun c => runPart_moves c p a

theorem sendInLoop_ownOp (data : List Byte) (w : WriteResult) : OwnOp (·.sendInLoop data w) :=
  .of_moves (uniform_sendInLoop data w) fun c => sendInLoop_moves c data w

theorem shutdownInLoop_ownOp : OwnOp (·.shutdownInLoop) :=
  .of_moves uniform_shutdownInLoop shutdownInLoop_moves

theorem userCall_ownOp (u : UserCall) : OwnOp (·.userCall u) :=
  .of_moves (uniform_userCall u) fun c => userCall_moves c u

theorem connectEstablished_ownOp (us : List UserCall) : OwnOp (·.connectEstablished us) where
  uniform := uniform_connectEstablished us
  localized c := connectEstablished_localized c us
  registers c := by
    have hstate : Registers c (c.setState .kConnected) := registers_of_eq rfl rfl
    have hup : Registers c (((c.setState .kConnected).enableReading).emit
        (.connectionCallback true)) :=
      (hstate.trans (setEvents_registers _ _)).trans (registers_of_eq rfl rfl)
    exact hup.trans (userCalls_moves _ us).registers

theorem connectDestroyed_ownOp (us : List UserCall) : OwnOp (·.connectDestroyed us) where
  uniform := uniform_connectDestroyed us
  localized c := connectDestroyed_localized c us
  registers c := by
    obtain ⟨d, hmoves, heq⟩ := connectDestroyedAfter_eq c (c.tcp.state == .kConnected) us
    rw [connectDestroyed, heq]
    exact hmoves.registers.trans (removeChannel_registers d)

end Conn

end EchoServer
