import EchoServer.Frames

/-!
# What an established connection can do

Every operation of a connection is a sequence of a few elementary moves:
record an effect, change the event set, replace a buffer, leave `KConnected`.
`Moves c c'` says that `c'` is reached from `c` by such moves; each operation
gets one lemma (`runPart_moves`, `userCall_moves`, ...), and each invariant one
induction over `Moves`.

* `Moves.state`, `Moves.index`, `Moves.trace_isPrefix`: never back to
  `KConnecting` or `KConnected`, never back to `New`, and nothing recorded is forgotten;
* `Sound`: the invariant of a connection from `connectEstablished` on, with its
  channel coherent and its trace telling which states it has left;
* `connectDestroyedAfter` is a sequence of moves and `removeChannel`.
-/

namespace EchoServer

open Trace

/-- The functors bound to a user callback. -/
def Functor.IsCallback : Functor → Prop
  | .writeCompleteCallback => True
  | .writeCompleteMember => True
  | .highWaterMarkCallback _ => True
  | _ => False

/-- Effects that need no justification. -/
def Effect.Plain : Effect → Prop
  | .setState _ => False
  | .connectionCallback connected => connected = false
  | .queueInLoop f => f.IsCallback
  | .removeChannel => False
  | _ => True

namespace Conn

/-- `c'` is reached from `c` by elementary moves. -/
inductive Moves (c : Conn) : Conn → Prop where
  | refl : Moves c c
  | emit {d : Conn} {e : Effect} : Moves c d → e.Plain → Moves c (d.emit e)
  | setEvents {d : Conn} (events : EventMask) : Moves c d → Moves c (d.setEvents events)
  | setInputBuffer {d : Conn} (b : Buffer) : Moves c d → Moves c (d.setInputBuffer b)
  | setOutputBuffer {d : Conn} (b : Buffer) : Moves c d → Moves c (d.setOutputBuffer b)
  | disconnecting {d : Conn} : Moves c d → Moves c (d.setState .kDisconnecting)
  | queueShutdown {d : Conn} : Moves c d → .setState .kDisconnecting ∈ d.trace →
      Moves c (d.queueInLoop .shutdownInLoop)
  | notifyDown {d : Conn} : Moves c d →
      Moves c (((d.setState .kDisconnected).disableAll).emit .down)

theorem Moves.trans {c d e : Conn} (h : Moves c d) (h' : Moves d e) : Moves c e := by
  induction h' with
  | refl => exact h
  | emit _ he ih => exact ih.emit he
  | setEvents events _ ih => exact ih.setEvents events
  | setInputBuffer b _ ih => exact ih.setInputBuffer b
  | setOutputBuffer b _ ih => exact ih.setOutputBuffer b
  | disconnecting _ ih => exact ih.disconnecting
  | queueShutdown _ hmem ih => exact ih.queueShutdown hmem
  | notifyDown _ ih => exact ih.notifyDown

/-! ## The operations -/

theorem directWrite_moves (c : Conn) (data : List Byte) (w : WriteResult) :
    Moves c (c.directWrite data w) := by
  have hwrite : Moves c (c.emit (.write data w)) := Moves.refl.emit trivial
  unfold directWrite
  split
  · split
    · exact hwrite.emit trivial
    · exact hwrite
  · exact hwrite

theorem tryDirectWrite_moves (c : Conn) (data : List Byte) (w : WriteResult) :
    Moves c (c.tryDirectWrite data w) := by
  unfold tryDirectWrite
  split
  · exact directWrite_moves c data w
  · exact Moves.refl

theorem bufferOutput_moves (c : Conn) (rest : List Byte) : Moves c (c.bufferOutput rest) := by
  have hmark : Moves c (c.checkHighWater rest.length) := by
    unfold checkHighWater
    split
    · exact Moves.refl.emit trivial
    · exact Moves.refl
  have hbuf := hmark.setOutputBuffer (c.tcp.outputBuffer.append rest)
  unfold bufferOutput ensureWriting
  split
  · exact hbuf.setEvents _
  · exact hbuf

theorem sendInLoop_moves (c : Conn) (data : List Byte) (w : WriteResult) :
    Moves c (c.sendInLoop data w) := by
  unfold sendInLoop
  split
  · exact (tryDirectWrite_moves c data w).trans (bufferOutput_moves _ _)
  · exact tryDirectWrite_moves c data w

theorem shutdownInLoop_moves (c : Conn) : Moves c c.shutdownInLoop := by
  unfold shutdownInLoop
  split
  · exact Moves.refl.emit trivial
  · exact Moves.refl

theorem userCall_moves (c : Conn) (u : UserCall) : Moves c (c.userCall u) := by
  cases u with
  | send data w =>
    simp only [userCall, send]
    split
    · exact sendInLoop_moves c data w
    · exact Moves.refl
  | shutdown =>
    simp only [userCall, shutdown]
    split
    · exact Moves.refl.disconnecting.queueShutdown (by simp)
    · exact Moves.refl
  | retrieve => exact (Moves.refl.setInputBuffer _).emit trivial
  | retrieveAll => exact (Moves.refl.setInputBuffer _).emit trivial
  | retrieveAllAsString => exact (Moves.refl.setInputBuffer _).emit trivial

theorem userCalls_moves (c : Conn) (us : List UserCall) : Moves c (c.userCalls us) := by
  induction us generalizing c with
  | nil => exact Moves.refl
  | cons u us ih => exact (userCall_moves c u).trans (ih _)

theorem notifyDown_moves (c : Conn) (us : List UserCall) :
    Moves c (((c.setState .kDisconnected).disableAll).connectionCallback us) := by
  have hdown : Moves c (((c.setState .kDisconnected).disableAll).emit .down) :=
    Moves.refl.notifyDown
  exact hdown.trans (userCalls_moves _ us)

theorem handleClose_moves (c : Conn) (us : List UserCall) : Moves c (c.handleClose us) :=
  (notifyDown_moves c us).emit trivial

theorem readInput_moves (c : Conn) (chunk : List Byte) : Moves c (c.readInput chunk) :=
  (Moves.refl.setInputBuffer _).emit trivial

theorem handleRead_moves (c : Conn) (a : Answers) : Moves c (c.handleRead a) := by
  rcases handleRead_cases c a with ⟨chunk, h⟩ | ⟨chunk, h⟩ | ⟨e, h⟩
  · rw [h]
    have hcall : Moves c ((c.readInput chunk).emit .messageCallback) :=
      (readInput_moves c chunk).emit trivial
    exact hcall.trans (userCalls_moves _ a.onMessage)
  · rw [h]
    exact (readInput_moves c chunk).trans (handleClose_moves _ _)
  · rw [h]
    have herror : Moves c (c.emit (.soError e)) := Moves.refl.emit trivial
    exact herror.trans (handleClose_moves _ _)

theorem afterWrite_moves (c : Conn) (n : Nat) : Moves c (c.afterWrite n) := by
  have hbuf : Moves c (c.retrieveOutput n) := Moves.refl.setOutputBuffer _
  have hdrain : ∀ d : Conn, Moves d d.afterDrain := by
    intro d
    have hqueue : Moves d d.disableWriting.queueWriteComplete := by
      have hdisable : Moves d d.disableWriting := Moves.refl.setEvents _
      unfold queueWriteComplete
      split
      · exact hdisable.emit trivial
      · exact hdisable
    unfold afterDrain shutdownIfDisconnecting
    split
    · exact hqueue.trans (shutdownInLoop_moves _)
    · exact hqueue
  unfold afterWrite
  split
  · exact hbuf.trans (hdrain _)
  · exact hbuf

theorem handleWrite_moves (c : Conn) (w : WriteResult) : Moves c (c.handleWrite w) := by
  have hwrite : Moves c (c.emit (.write c.offered w)) := Moves.refl.emit trivial
  unfold handleWrite
  split
  · split
    · exact hwrite.trans (afterWrite_moves _ _)
    · exact hwrite
  · exact Moves.refl

theorem runPart_moves (c : Conn) (p : Part) (a : Answers) : Moves c (c.runPart p a) := by
  cases p with
  | close => exact handleClose_moves c a.onConnection
  | error =>
    obtain ⟨e, he⟩ := handleError_eq c a.sockOpt a.onConnection
    have herror : Moves c (c.emit (.soError e)) := Moves.refl.emit trivial
    rw [runPart, he]
    exact herror.trans (handleClose_moves _ _)
  | read => exact handleRead_moves c a
  | write => exact handleWrite_moves c a.write

/-- `connectDestroyed` is moves and then `channel_->remove()`. -/
theorem connectDestroyedAfter_eq (c : Conn) (saw : Bool) (us : List UserCall) :
    ∃ d, Moves c d ∧ c.connectDestroyedAfter saw us = d.removeChannel := by
  unfold connectDestroyedAfter
  split
  · exact ⟨_, notifyDown_moves c us, rfl⟩
  · exact ⟨c, Moves.refl, rfl⟩

/-! ## What moves preserve -/

theorem Moves.trace_isPrefix {c d : Conn} (h : Moves c d) : c.trace <+: d.trace := by
  induction h with
  | refl => exact List.prefix_refl _
  | emit _ _ ih => exact ih.trans (List.prefix_append _ _)
  | setEvents _ _ ih => exact ih
  | setInputBuffer _ _ ih => exact ih
  | setOutputBuffer _ _ ih => exact ih
  | disconnecting _ ih => exact ih.trans (List.prefix_append _ _)
  | queueShutdown _ _ ih => exact ih.trans (List.prefix_append _ _)
  | notifyDown _ ih =>
    exact ih.trans ((List.prefix_append _ _).trans (List.prefix_append _ _))

theorem Moves.mem_trace {c d : Conn} (h : Moves c d) {e : Effect} (he : e ∈ c.trace) :
    e ∈ d.trace :=
  h.trace_isPrefix.subset he

/-- No way leads back to `KConnecting` or `KConnected`. -/
theorem Moves.state {c d : Conn} (h : Moves c d) {s : StateE}
    (hs : s = .kConnecting ∨ s = .kConnected) (hc : c.tcp.state ≠ s) : d.tcp.state ≠ s := by
  induction h with
  | refl => exact hc
  | emit _ _ ih => exact ih
  | setEvents _ _ ih => exact ih
  | setInputBuffer _ _ ih => exact ih
  | setOutputBuffer _ _ ih => exact ih
  | disconnecting _ _ => rcases hs with rfl | rfl <;> simp
  | queueShutdown _ _ ih => exact ih
  | notifyDown _ _ => rcases hs with rfl | rfl <;> simp [disableAll]

/-- No way leads back to index `New`. -/
theorem Moves.index {c d : Conn} (h : Moves c d) (hc : c.tcp.channel.index ≠ .new) :
    d.tcp.channel.index ≠ .new := by
  induction h with
  | refl => exact hc
  | emit _ _ ih => exact ih
  | setEvents _ _ _ => exact EPollPoller.setEvents_index _ _ _
  | setInputBuffer _ _ ih => exact ih
  | setOutputBuffer _ _ ih => exact ih
  | disconnecting _ ih => exact ih
  | queueShutdown _ _ ih => exact ih
  | notifyDown _ _ => exact EPollPoller.setEvents_index _ _ _

theorem Moves.removed {c d : Conn} (h : Moves c d) :
    .removeChannel ∈ d.trace ↔ .removeChannel ∈ c.trace := by
  induction h with
  | refl => exact Iff.rfl
  | @emit d e _ he ih =>
    have hne : Effect.removeChannel ≠ e := by
      rintro rfl
      exact he
    simp [ih, hne]
  | setEvents _ _ ih => exact ih
  | setInputBuffer _ _ ih => exact ih
  | setOutputBuffer _ _ ih => exact ih
  | disconnecting _ ih => simp [ih]
  | queueShutdown _ _ ih => simp [ih]
  | notifyDown _ ih => simp [ih, disableAll]

/-! ## The invariant of an established connection -/

/-- The three views of the connection's channel agree. -/
def Coherent (c : Conn) : Prop := c.poller.Coherent c.tcp.channel

/-- What holds from `connectEstablished` on. -/
structure Sound (c : Conn) : Prop where
  coherent : c.Coherent
  up : .connectionCallback true ∈ c.trace
  left : ∀ s, s ≠ .kConnected → .setState s ∈ c.trace → c.tcp.state ≠ .kConnected
  disconnected : c.tcp.state = .kDisconnected → .setState .kDisconnected ∈ c.trace
  down : .setState .kDisconnected ∈ c.trace → .down ∈ c.trace
  shutdownQueued : .queueInLoop .shutdownInLoop ∈ c.trace → .setState .kDisconnecting ∈ c.trace
  queued : ∀ f, .queueInLoop f ∈ c.trace → f.IsCallback ∨ f = .shutdownInLoop

theorem Sound.emit {c : Conn} (h : c.Sound) {e : Effect} (he : e.Plain) : (c.emit e).Sound where
  coherent := h.coherent
  up := List.mem_append_left _ h.up
  left s hs hmem := by
    rcases List.mem_append.mp hmem with hmem | hmem
    · exact h.left s hs hmem
    · rw [List.mem_singleton.mp hmem |>.symm] at he
      exact he.elim
  disconnected hs := List.mem_append_left _ (h.disconnected hs)
  down hmem := by
    rcases List.mem_append.mp hmem with hmem | hmem
    · exact List.mem_append_left _ (h.down hmem)
    · rw [List.mem_singleton.mp hmem |>.symm] at he
      exact he.elim
  shutdownQueued hmem := by
    rcases List.mem_append.mp hmem with hmem | hmem
    · exact List.mem_append_left _ (h.shutdownQueued hmem)
    · rw [List.mem_singleton.mp hmem |>.symm] at he
      exact he.elim
  queued f hmem := by
    rcases List.mem_append.mp hmem with hmem | hmem
    · exact h.queued f hmem
    · rw [List.mem_singleton.mp hmem |>.symm] at he
      exact Or.inl he

theorem Sound.setEvents {c : Conn} (h : c.Sound) (events : EventMask) :
    (c.setEvents events).Sound where
  coherent := EPollPoller.setEvents_coherent h.coherent events
  up := h.up
  left := h.left
  disconnected := h.disconnected
  down := h.down
  shutdownQueued := h.shutdownQueued
  queued := h.queued

theorem Sound.disconnecting {c : Conn} (h : c.Sound) : (c.setState .kDisconnecting).Sound where
  coherent := h.coherent
  up := List.mem_append_left _ h.up
  left _ _ _ := by simp
  disconnected hs := by simp at hs
  down hmem := by
    have hmem' : .setState .kDisconnected ∈ c.trace := by simpa using hmem
    exact List.mem_append_left _ (h.down hmem')
  shutdownQueued _ := by simp
  queued f hmem := h.queued f (by simpa using hmem)

theorem Sound.notifyDown {c : Conn} (h : c.Sound) :
    (((c.setState .kDisconnected).disableAll).emit .down).Sound where
  coherent := EPollPoller.setEvents_coherent h.coherent _
  up := by simp [disableAll, h.up]
  left _ _ _ := by simp [disableAll]
  disconnected _ := by simp [disableAll]
  down _ := by simp [disableAll]
  shutdownQueued hmem := by
    have hmem' : .queueInLoop .shutdownInLoop ∈ c.trace := by simpa [disableAll] using hmem
    simp [disableAll, h.shutdownQueued hmem']
  queued f hmem := h.queued f (by simpa [disableAll] using hmem)

theorem Sound.queueShutdown {c : Conn} (h : c.Sound) (hmem : .setState .kDisconnecting ∈ c.trace) :
    (c.queueInLoop .shutdownInLoop).Sound where
  coherent := h.coherent
  up := List.mem_append_left _ h.up
  left s hs hs' := h.left s hs (by simpa using hs')
  disconnected hs := List.mem_append_left _ (h.disconnected hs)
  down hd := List.mem_append_left _ (h.down (by simpa using hd))
  shutdownQueued _ := List.mem_append_left _ hmem
  queued f hf := by
    rcases List.mem_append.mp hf with hf | hf
    · exact h.queued f hf
    · right
      simpa using hf

theorem Moves.sound {c d : Conn} (h : Moves c d) (hc : c.Sound) : d.Sound := by
  induction h with
  | refl => exact hc
  | emit _ he ih => exact ih.emit he
  | setEvents events _ ih => exact ih.setEvents events
  | setInputBuffer _ _ ih =>
    exact ⟨ih.coherent, ih.up, ih.left, ih.disconnected, ih.down, ih.shutdownQueued, ih.queued⟩
  | setOutputBuffer _ _ ih =>
    exact ⟨ih.coherent, ih.up, ih.left, ih.disconnected, ih.down, ih.shutdownQueued, ih.queued⟩
  | disconnecting _ ih => exact ih.disconnecting
  | queueShutdown _ hmem ih => exact ih.queueShutdown hmem
  | notifyDown _ ih => exact ih.notifyDown

theorem Sound.removeChannel {c : Conn} (h : c.Sound) : c.removeChannel.Sound where
  coherent := EPollPoller.removeChannel_coherent h.coherent
  up := List.mem_append_left _ h.up
  left s hs hmem := h.left s hs (by simpa [Conn.removeChannel] using hmem)
  disconnected hs := List.mem_append_left _ (h.disconnected hs)
  down hmem := List.mem_append_left _ (h.down (by simpa [Conn.removeChannel] using hmem))
  shutdownQueued hmem :=
    List.mem_append_left _ (h.shutdownQueued (by simpa [Conn.removeChannel] using hmem))
  queued f hmem := h.queued f (by simpa [Conn.removeChannel] using hmem)

theorem connectDestroyedAfter_sound {c : Conn} (h : c.Sound) (saw : Bool) (us : List UserCall) :
    (c.connectDestroyedAfter saw us).Sound := by
  obtain ⟨d, hmoves, heq⟩ := connectDestroyedAfter_eq c saw us
  rw [heq]
  exact (hmoves.sound h).removeChannel

/-- A connection after `connectEstablished`, with the calls the user makes from
the UP notification. -/
def upConn (self fd : Nat) (wc hw : Bool) (mark : Nat) (onConnection : List UserCall) : Conn :=
  (Conn.new self fd wc hw mark).connectEstablished onConnection

theorem upConn_sound (self fd : Nat) (wc hw : Bool) (mark : Nat) (us : List UserCall) :
    (upConn self fd wc hw mark us).Sound := by
  have hcoherent : ((Conn.new self fd wc hw mark).setState .kConnected).enableReading.Coherent :=
    EPollPoller.setEvents_coherent (EPollPoller.new_coherent self fd) _
  have hup : ((((Conn.new self fd wc hw mark).setState .kConnected).enableReading).emit
      (.connectionCallback true)).Sound :=
    { coherent := hcoherent
      up := by simp
      left := by simp [enableReading, Conn.new]
      disconnected := by simp [enableReading]
      down := by simp [enableReading, Conn.new]
      shutdownQueued := by simp [enableReading, Conn.new]
      queued := by simp [enableReading, Conn.new] }
  exact (userCalls_moves _ us).sound hup

end Conn

end EchoServer
