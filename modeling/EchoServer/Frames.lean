import EchoServer.Lib.Trace
import EchoServer.TcpConnection

/-!
# What each operation of a connection leaves alone

One group of lemmas for each operation: the fields it does not write, the
kinds of effects it can add to the trace, and what it does to the event set of
the channel. Later modules reason about the operations through these lemmas
and unfold none of them.
-/

namespace EchoServer

open Trace

namespace Conn

/-! ## Emitting -/

@[simp] theorem emit_tcp (c : Conn) (e : Effect) : (c.emit e).tcp = c.tcp := rfl
@[simp] theorem emit_poller (c : Conn) (e : Effect) : (c.emit e).poller = c.poller := rfl
@[simp] theorem emit_trace (c : Conn) (e : Effect) : (c.emit e).trace = c.trace ++ [e] := rfl
@[simp] theorem emit_isWriting (c : Conn) (e : Effect) : (c.emit e).isWriting = c.isWriting := rfl

@[simp] theorem queueInLoop_tcp (c : Conn) (f : Functor) : (c.queueInLoop f).tcp = c.tcp := rfl
@[simp] theorem queueInLoop_poller (c : Conn) (f : Functor) :
    (c.queueInLoop f).poller = c.poller := rfl
@[simp] theorem queueInLoop_trace (c : Conn) (f : Functor) :
    (c.queueInLoop f).trace = c.trace ++ [.queueInLoop f] := rfl
@[simp] theorem queueInLoop_isWriting (c : Conn) (f : Functor) :
    (c.queueInLoop f).isWriting = c.isWriting := rfl

@[simp] theorem setState_state (c : Conn) (s : StateE) : (c.setState s).tcp.state = s := rfl
@[simp] theorem setState_channel (c : Conn) (s : StateE) :
    (c.setState s).tcp.channel = c.tcp.channel := rfl
@[simp] theorem setState_inputBuffer (c : Conn) (s : StateE) :
    (c.setState s).tcp.inputBuffer = c.tcp.inputBuffer := rfl
@[simp] theorem setState_outputBuffer (c : Conn) (s : StateE) :
    (c.setState s).tcp.outputBuffer = c.tcp.outputBuffer := rfl
@[simp] theorem setState_poller (c : Conn) (s : StateE) : (c.setState s).poller = c.poller := rfl
@[simp] theorem setState_trace (c : Conn) (s : StateE) :
    (c.setState s).trace = c.trace ++ [.setState s] := rfl
@[simp] theorem setState_isWriting (c : Conn) (s : StateE) :
    (c.setState s).isWriting = c.isWriting := rfl

/-! ## The event set -/

@[simp] theorem setEvents_state (c : Conn) (e : EventMask) :
    (c.setEvents e).tcp.state = c.tcp.state := rfl
@[simp] theorem setEvents_inputBuffer (c : Conn) (e : EventMask) :
    (c.setEvents e).tcp.inputBuffer = c.tcp.inputBuffer := rfl
@[simp] theorem setEvents_outputBuffer (c : Conn) (e : EventMask) :
    (c.setEvents e).tcp.outputBuffer = c.tcp.outputBuffer := rfl
@[simp] theorem setEvents_writeCompleteCallback (c : Conn) (e : EventMask) :
    (c.setEvents e).tcp.writeCompleteCallback = c.tcp.writeCompleteCallback := rfl
@[simp] theorem setEvents_trace (c : Conn) (e : EventMask) :
    (c.setEvents e).trace = c.trace := rfl
@[simp] theorem setEvents_events (c : Conn) (e : EventMask) :
    (c.setEvents e).tcp.channel.events = e :=
  EPollPoller.setEvents_events c.poller c.tcp.channel e
@[simp] theorem setEvents_isWriting (c : Conn) (e : EventMask) :
    (c.setEvents e).isWriting = e.has Channel.writeEvent := by
  simp [isWriting, Channel.isWriting]

@[simp] theorem enableReading_isWriting (c : Conn) : c.enableReading.isWriting = c.isWriting := by
  simp [enableReading, isWriting, Channel.isWriting]
@[simp] theorem enableWriting_isWriting (c : Conn) : c.enableWriting.isWriting = true := by
  simp [enableWriting]
@[simp] theorem disableWriting_isWriting (c : Conn) : c.disableWriting.isWriting = false := by
  simp [disableWriting]
@[simp] theorem disableAll_isWriting (c : Conn) : c.disableAll.isWriting = false := by
  simp [disableAll]

/-- A channel without events is not writing. -/
theorem isWriting_of_noneEvent {c : Conn} (h : c.tcp.channel.events = Channel.noneEvent) :
    c.isWriting = false := by
  simp [isWriting, Channel.isWriting, h]

/-! ## Sending -/

@[simp] theorem directWrite_tcp (c : Conn) (data : List Byte) (w : WriteResult) :
    (c.directWrite data w).tcp = c.tcp := by
  unfold directWrite
  split
  · split <;> rfl
  · rfl

@[simp] theorem directWrite_poller (c : Conn) (data : List Byte) (w : WriteResult) :
    (c.directWrite data w).poller = c.poller := by
  unfold directWrite
  split
  · split <;> rfl
  · rfl

/-- The effects of sending: writes and functors for the user's callbacks. -/
def IsSending : Effect → Prop
  | .write _ _ => True
  | .queueInLoop .writeCompleteMember => True
  | .queueInLoop (.highWaterMarkCallback _) => True
  | _ => False

theorem directWrite_extends (c : Conn) (data : List Byte) (w : WriteResult) :
    Extends IsSending c.trace (c.directWrite data w).trace := by
  unfold directWrite
  split
  · split
    · exact (Extends.one trivial c.trace).trans (Extends.one trivial _)
    · exact Extends.one trivial c.trace
  · exact Extends.one trivial c.trace

theorem tryDirectWrite_extends (c : Conn) (data : List Byte) (w : WriteResult) :
    Extends IsSending c.trace (c.tryDirectWrite data w).trace := by
  unfold tryDirectWrite
  split
  · exact directWrite_extends c data w
  · exact Extends.refl _ _

@[simp] theorem tryDirectWrite_tcp (c : Conn) (data : List Byte) (w : WriteResult) :
    (c.tryDirectWrite data w).tcp = c.tcp := by
  unfold tryDirectWrite
  split
  · exact directWrite_tcp c data w
  · rfl

@[simp] theorem tryDirectWrite_isWriting (c : Conn) (data : List Byte) (w : WriteResult) :
    (c.tryDirectWrite data w).isWriting = c.isWriting := by
  simp [isWriting]

@[simp] theorem tryDirectWrite_poller (c : Conn) (data : List Byte) (w : WriteResult) :
    (c.tryDirectWrite data w).poller = c.poller := by
  unfold tryDirectWrite
  split
  · exact directWrite_poller c data w
  · rfl

@[simp] theorem checkHighWater_tcp (c : Conn) (n : Nat) : (c.checkHighWater n).tcp = c.tcp := by
  unfold checkHighWater
  split <;> rfl

@[simp] theorem checkHighWater_isWriting (c : Conn) (n : Nat) :
    (c.checkHighWater n).isWriting = c.isWriting := by
  simp [isWriting]

@[simp] theorem checkHighWater_poller (c : Conn) (n : Nat) :
    (c.checkHighWater n).poller = c.poller := by
  unfold checkHighWater
  split <;> rfl

theorem checkHighWater_extends (c : Conn) (n : Nat) :
    Extends IsSending c.trace (c.checkHighWater n).trace := by
  unfold checkHighWater
  split
  · exact Extends.one trivial c.trace
  · exact Extends.refl _ _

@[simp] theorem setOutputBuffer_state (c : Conn) (b : Buffer) :
    (c.setOutputBuffer b).tcp.state = c.tcp.state := rfl
@[simp] theorem setOutputBuffer_channel (c : Conn) (b : Buffer) :
    (c.setOutputBuffer b).tcp.channel = c.tcp.channel := rfl
@[simp] theorem setOutputBuffer_inputBuffer (c : Conn) (b : Buffer) :
    (c.setOutputBuffer b).tcp.inputBuffer = c.tcp.inputBuffer := rfl
@[simp] theorem setOutputBuffer_outputBuffer (c : Conn) (b : Buffer) :
    (c.setOutputBuffer b).tcp.outputBuffer = b := rfl
@[simp] theorem setOutputBuffer_isWriting (c : Conn) (b : Buffer) :
    (c.setOutputBuffer b).isWriting = c.isWriting := rfl
@[simp] theorem setOutputBuffer_poller (c : Conn) (b : Buffer) :
    (c.setOutputBuffer b).poller = c.poller := rfl
@[simp] theorem setOutputBuffer_trace (c : Conn) (b : Buffer) :
    (c.setOutputBuffer b).trace = c.trace := rfl

@[simp] theorem ensureWriting_state (c : Conn) : c.ensureWriting.tcp.state = c.tcp.state := by
  unfold ensureWriting
  split <;> rfl
@[simp] theorem ensureWriting_inputBuffer (c : Conn) :
    c.ensureWriting.tcp.inputBuffer = c.tcp.inputBuffer := by
  unfold ensureWriting
  split <;> rfl
@[simp] theorem ensureWriting_outputBuffer (c : Conn) :
    c.ensureWriting.tcp.outputBuffer = c.tcp.outputBuffer := by
  unfold ensureWriting
  split <;> rfl
@[simp] theorem ensureWriting_trace (c : Conn) : c.ensureWriting.trace = c.trace := by
  unfold ensureWriting
  split <;> rfl
@[simp] theorem ensureWriting_isWriting (c : Conn) : c.ensureWriting.isWriting = true := by
  unfold ensureWriting
  split
  · exact enableWriting_isWriting c
  · rename_i h
    simpa using h

@[simp] theorem bufferOutput_state (c : Conn) (rest : List Byte) :
    (c.bufferOutput rest).tcp.state = c.tcp.state := by
  simp [bufferOutput]

@[simp] theorem bufferOutput_inputBuffer (c : Conn) (rest : List Byte) :
    (c.bufferOutput rest).tcp.inputBuffer = c.tcp.inputBuffer := by
  simp [bufferOutput]

@[simp] theorem bufferOutput_outputBuffer (c : Conn) (rest : List Byte) :
    (c.bufferOutput rest).tcp.outputBuffer = c.tcp.outputBuffer.append rest := by
  simp [bufferOutput]

@[simp] theorem bufferOutput_isWriting (c : Conn) (rest : List Byte) :
    (c.bufferOutput rest).isWriting = true := by
  simp [bufferOutput]

/-- A channel that is writing already is left alone. -/
theorem bufferOutput_channel_of_writing {c : Conn} (h : c.isWriting = true) (rest : List Byte) :
    (c.bufferOutput rest).tcp.channel = c.tcp.channel := by
  unfold bufferOutput ensureWriting
  rw [if_neg (by simp [h])]
  simp

theorem bufferOutput_index_of_not_writing {c : Conn} (h : c.isWriting = false)
    (rest : List Byte) : (c.bufferOutput rest).tcp.channel.index ≠ .new := by
  unfold bufferOutput ensureWriting
  rw [if_pos (by simp [h])]
  exact EPollPoller.setEvents_index _ _ _

theorem bufferOutput_extends (c : Conn) (rest : List Byte) :
    Extends IsSending c.trace (c.bufferOutput rest).trace := by
  simpa [bufferOutput] using checkHighWater_extends c rest.length

@[simp] theorem sendInLoop_state (c : Conn) (data : List Byte) (w : WriteResult) :
    (c.sendInLoop data w).tcp.state = c.tcp.state := by
  unfold sendInLoop
  split <;> simp

@[simp] theorem sendInLoop_inputBuffer (c : Conn) (data : List Byte) (w : WriteResult) :
    (c.sendInLoop data w).tcp.inputBuffer = c.tcp.inputBuffer := by
  unfold sendInLoop
  split <;> simp

theorem sendInLoop_extends (c : Conn) (data : List Byte) (w : WriteResult) :
    Extends IsSending c.trace (c.sendInLoop data w).trace := by
  unfold sendInLoop
  split
  · exact (tryDirectWrite_extends c data w).trans (bufferOutput_extends _ _)
  · exact tryDirectWrite_extends c data w

/-- The direct write is the first thing `sendInLoop` records. -/
theorem sendInLoop_trace_of_direct {c : Conn} (h : c.writesDirectly = true) (data : List Byte)
    (w : WriteResult) : ∃ es, (c.sendInLoop data w).trace = c.trace ++ .write data w :: es := by
  have hdirect : ∃ es, (c.tryDirectWrite data w).trace = c.trace ++ .write data w :: es := by
    unfold tryDirectWrite directWrite
    rw [if_pos h]
    split
    · split
      · exact ⟨[.queueInLoop .writeCompleteMember], by simp⟩
      · exact ⟨[], by simp⟩
    · exact ⟨[], by simp⟩
  obtain ⟨es, hes⟩ := hdirect
  unfold sendInLoop
  split
  · obtain ⟨fs, hfs, _⟩ :=
      bufferOutput_extends (c.tryDirectWrite data w) (data.drop (c.nwrote data w))
    exact ⟨es ++ fs, by rw [hfs, hes]; simp⟩
  · exact ⟨es, hes⟩

/-- With output pending, `sendInLoop` appends the whole string. -/
theorem sendInLoop_readable_of_pending {c : Conn} (h : c.writesDirectly = false)
    (data : List Byte) (w : WriteResult) :
    (c.sendInLoop data w).tcp.outputBuffer.readable =
      c.tcp.outputBuffer.readable ++ data := by
  have hnwrote : c.nwrote data w = 0 := by simp [nwrote, h]
  unfold sendInLoop
  rw [hnwrote]
  split
  · rw [bufferOutput_outputBuffer, tryDirectWrite_tcp, Buffer.readable_append, List.drop_zero]
  · rename_i hrest
    have hempty : data = [] := by
      simpa [leavesRest, faultError, h, hnwrote] using hrest
    rw [tryDirectWrite_tcp, hempty, List.append_nil]

/-- `sendInLoop` enables writing: it has something to buffer while the channel
is not writing. -/
def enablesWriting (c : Conn) (data : List Byte) (w : WriteResult) : Bool :=
  c.leavesRest data w && !c.isWriting

theorem sendInLoop_channel_of_quiet {c : Conn} {data : List Byte} {w : WriteResult}
    (h : c.enablesWriting data w = false) :
    (c.sendInLoop data w).tcp.channel = c.tcp.channel := by
  unfold sendInLoop
  split
  · rename_i hrest
    have hwriting : c.isWriting = true := by
      simpa [enablesWriting, hrest] using h
    rw [bufferOutput_channel_of_writing (by simpa using hwriting), tryDirectWrite_tcp]
  · rw [tryDirectWrite_tcp]

/-- A `New` channel stays `New` exactly when writing is not enabled. -/
theorem sendInLoop_index_iff {c : Conn} (hnew : c.tcp.channel.index = .new) (data : List Byte)
    (w : WriteResult) :
    (c.sendInLoop data w).tcp.channel.index = .new ↔ c.enablesWriting data w = false := by
  constructor
  · intro h
    by_contra henables
    simp only [Bool.not_eq_false, enablesWriting, Bool.and_eq_true, Bool.not_eq_true'] at henables
    unfold sendInLoop at h
    rw [if_pos henables.1] at h
    exact bufferOutput_index_of_not_writing (by simpa using henables.2) _ h
  · intro h
    rw [sendInLoop_channel_of_quiet h]
    exact hnew

/-! ## User code -/

/-- The effects of user calls on a connection that is not `KConnected`. -/
def IsConsumed : Effect → Prop
  | .consumed _ => True
  | _ => False

/-- The effects of user calls in general. -/
def IsUser : Effect → Prop
  | .write _ _ => True
  | .queueInLoop .writeCompleteMember => True
  | .queueInLoop (.highWaterMarkCallback _) => True
  | .queueInLoop .shutdownInLoop => True
  | .setState s => s = .kDisconnecting
  | .consumed _ => True
  | _ => False

theorem IsSending.isUser {e : Effect} (h : IsSending e) : IsUser e := by
  cases e with
  | write => trivial
  | queueInLoop f =>
    cases f with
    | writeCompleteMember => trivial
    | highWaterMarkCallback => trivial
    | _ => exact h.elim
  | _ => exact h.elim

theorem IsConsumed.isUser {e : Effect} (h : IsConsumed e) : IsUser e := by
  cases e with
  | consumed => trivial
  | _ => exact h.elim

theorem userCall_extends (c : Conn) (u : UserCall) :
    Extends IsUser c.trace (c.userCall u).trace := by
  cases u with
  | send data w =>
    simp only [userCall, send]
    split
    · exact (sendInLoop_extends c data w).mono fun _ => IsSending.isUser
    · exact Extends.refl _ _
  | shutdown =>
    simp only [userCall, shutdown]
    split
    · have hset : Extends IsUser c.trace (c.trace ++ [.setState .kDisconnecting]) := by
        apply Extends.one
        rfl
      have hqueue : Extends IsUser (c.trace ++ [.setState .kDisconnecting])
          (c.trace ++ [.setState .kDisconnecting] ++ [.queueInLoop .shutdownInLoop]) := by
        apply Extends.one
        trivial
      exact hset.trans hqueue
    · exact Extends.refl _ _
  | retrieve => exact Extends.one trivial c.trace
  | retrieveAll => exact Extends.one trivial c.trace
  | retrieveAllAsString => exact Extends.one trivial c.trace

/-- Only the input buffer and the trace differ, the latter by `consumed`. -/
structure OnlyConsumes (c c' : Conn) : Prop where
  state : c'.tcp.state = c.tcp.state
  channel : c'.tcp.channel = c.tcp.channel
  outputBuffer : c'.tcp.outputBuffer = c.tcp.outputBuffer
  poller : c'.poller = c.poller
  trace : Extends IsConsumed c.trace c'.trace

theorem OnlyConsumes.refl (c : Conn) : OnlyConsumes c c :=
  ⟨rfl, rfl, rfl, rfl, Extends.refl _ _⟩

theorem OnlyConsumes.trans {c c' c'' : Conn} (h : OnlyConsumes c c') (h' : OnlyConsumes c' c'') :
    OnlyConsumes c c'' :=
  ⟨h'.state.trans h.state, h'.channel.trans h.channel, h'.outputBuffer.trans h.outputBuffer,
    h'.poller.trans h.poller, h.trace.trans h'.trace⟩

/-- On a connection that is not `KConnected`, `send` and `shutdown` do
nothing. -/
theorem userCall_onlyConsumes {c : Conn} (h : c.tcp.state ≠ .kConnected) (u : UserCall) :
    OnlyConsumes c (c.userCall u) := by
  cases u with
  | send data w =>
    simp only [userCall, send, if_neg h]
    exact OnlyConsumes.refl c
  | shutdown =>
    simp only [userCall, shutdown, if_neg h]
    exact OnlyConsumes.refl c
  | retrieve => exact ⟨rfl, rfl, rfl, rfl, Extends.one trivial c.trace⟩
  | retrieveAll => exact ⟨rfl, rfl, rfl, rfl, Extends.one trivial c.trace⟩
  | retrieveAllAsString => exact ⟨rfl, rfl, rfl, rfl, Extends.one trivial c.trace⟩

theorem userCalls_cons (c : Conn) (u : UserCall) (us : List UserCall) :
    c.userCalls (u :: us) = (c.userCall u).userCalls us := rfl

theorem userCalls_extends (c : Conn) (us : List UserCall) :
    Extends IsUser c.trace (c.userCalls us).trace := by
  induction us generalizing c with
  | nil => exact Extends.refl _ _
  | cons u us ih => exact (userCall_extends c u).trans (ih _)

theorem userCalls_onlyConsumes {c : Conn} (h : c.tcp.state ≠ .kConnected) (us : List UserCall) :
    OnlyConsumes c (c.userCalls us) := by
  induction us generalizing c with
  | nil => exact OnlyConsumes.refl c
  | cons u us ih =>
    have hu := userCall_onlyConsumes h u
    exact hu.trans (ih (by rw [hu.state]; exact h))

/-! ## Closing -/

/-- What `handleClose` and the first branch of `connectDestroyed` share:
`KDisconnected` is stored, all events are disabled, and the callback finds the
connection no longer connected. -/
theorem notifyDown_onlyConsumes (c : Conn) (us : List UserCall) :
    OnlyConsumes ((((c.setState .kDisconnected).disableAll).emit (.connectionCallback false)))
      (((c.setState .kDisconnected).disableAll).connectionCallback us) := by
  unfold connectionCallback
  exact userCalls_onlyConsumes (by simp [disableAll]) us

theorem handleClose_state (c : Conn) (us : List UserCall) :
    (c.handleClose us).tcp.state = .kDisconnected :=
  (notifyDown_onlyConsumes c us).state

theorem handleClose_channel (c : Conn) (us : List UserCall) :
    (c.handleClose us).tcp.channel = c.disableAll.tcp.channel :=
  (notifyDown_onlyConsumes c us).channel

/-- The effects of closing. -/
def IsClosing : Effect → Prop
  | .setState s => s = .kDisconnected
  | .connectionCallback connected => connected = false
  | .consumed _ => True
  | .closeCallback => True
  | .soError _ => True
  | .received _ => True
  | _ => False

theorem notifyDown_extends (c : Conn) (us : List UserCall) :
    Extends IsClosing c.trace
      (((c.setState .kDisconnected).disableAll).connectionCallback us).trace := by
  have hset : Extends IsClosing c.trace (c.trace ++ [.setState .kDisconnected]) := by
    apply Extends.one
    rfl
  have hcall : Extends IsClosing (c.trace ++ [.setState .kDisconnected])
      (c.trace ++ [.setState .kDisconnected] ++ [.connectionCallback false]) := by
    apply Extends.one
    rfl
  have hrest : Extends IsClosing (c.trace ++ [.setState .kDisconnected] ++
      [.connectionCallback false])
      (((c.setState .kDisconnected).disableAll).connectionCallback us).trace := by
    refine (notifyDown_onlyConsumes c us).trace.mono ?_
    intro e he
    cases e with
    | consumed => trivial
    | _ => exact he.elim
  exact (hset.trans hcall).trans hrest

theorem handleClose_extends (c : Conn) (us : List UserCall) :
    Extends IsClosing c.trace (c.handleClose us).trace :=
  (notifyDown_extends c us).trans (Extends.one trivial _)

/-- Both outcomes of `getsockopt` end in `handleClose`. -/
theorem handleError_eq (c : Conn) (opt : SockOptResult) (us : List UserCall) :
    ∃ e, c.handleError opt us = (c.emit (.soError e)).handleClose us := by
  cases opt with
  | ok e => exact ⟨e, rfl⟩
  | err e => exact ⟨e, rfl⟩

/-! ## Reading -/

@[simp] theorem readInput_trace (c : Conn) (chunk : List Byte) :
    (c.readInput chunk).trace =
      c.trace ++ [.received (chunk.take c.tcp.inputBuffer.readFdCapacity)] := rfl
@[simp] theorem readInput_state (c : Conn) (chunk : List Byte) :
    (c.readInput chunk).tcp.state = c.tcp.state := rfl
@[simp] theorem readInput_channel (c : Conn) (chunk : List Byte) :
    (c.readInput chunk).tcp.channel = c.tcp.channel := rfl
@[simp] theorem readInput_outputBuffer (c : Conn) (chunk : List Byte) :
    (c.readInput chunk).tcp.outputBuffer = c.tcp.outputBuffer := rfl
@[simp] theorem readInput_poller (c : Conn) (chunk : List Byte) :
    (c.readInput chunk).poller = c.poller := rfl

/-- `handleRead` hands data to the message callback, or closes after end of
file, or closes after an error. -/
theorem handleRead_cases (c : Conn) (a : Answers) :
    (∃ chunk, c.handleRead a = (c.readInput chunk).messageCallback a.onMessage) ∨
    (∃ chunk, c.handleRead a = (c.readInput chunk).handleClose a.onConnection) ∨
    (∃ e, c.handleRead a = (c.emit (.soError e)).handleClose a.onConnection) := by
  unfold handleRead
  split
  · rename_i chunk _
    split
    · exact Or.inl ⟨chunk, rfl⟩
    · exact Or.inr (Or.inl ⟨chunk, rfl⟩)
  · exact Or.inr (Or.inr (handleError_eq c a.sockOpt a.onConnection))

/-! ## Writing -/

/-- The effects of draining the output buffer. -/
def IsDraining : Effect → Prop
  | .queueInLoop .writeCompleteCallback => True
  | .shutdownWrite => True
  | _ => False

/-- The effects of `handleWrite`. -/
def IsWriting : Effect → Prop
  | .write _ _ => True
  | .queueInLoop .writeCompleteCallback => True
  | .shutdownWrite => True
  | _ => False

theorem IsDraining.isWriting {e : Effect} (h : IsDraining e) : IsWriting e := by
  cases e with
  | queueInLoop f =>
    cases f with
    | writeCompleteCallback => trivial
    | _ => exact h.elim
  | shutdownWrite => trivial
  | _ => exact h.elim

theorem shutdownInLoop_tcp (c : Conn) : c.shutdownInLoop.tcp = c.tcp := by
  unfold shutdownInLoop
  split <;> rfl

theorem shutdownInLoop_poller (c : Conn) : c.shutdownInLoop.poller = c.poller := by
  unfold shutdownInLoop
  split <;> rfl

theorem shutdownInLoop_extends (c : Conn) :
    Extends (· = .shutdownWrite) c.trace c.shutdownInLoop.trace := by
  unfold shutdownInLoop
  split
  · apply Extends.one
    rfl
  · exact Extends.refl _ _

@[simp] theorem queueWriteComplete_tcp (c : Conn) : c.queueWriteComplete.tcp = c.tcp := by
  unfold queueWriteComplete
  split <;> rfl

@[simp] theorem queueWriteComplete_poller (c : Conn) :
    c.queueWriteComplete.poller = c.poller := by
  unfold queueWriteComplete
  split <;> rfl

theorem queueWriteComplete_extends (c : Conn) :
    Extends IsDraining c.trace c.queueWriteComplete.trace := by
  unfold queueWriteComplete
  split
  · apply Extends.one
    trivial
  · exact Extends.refl _ _

@[simp] theorem shutdownIfDisconnecting_tcp (c : Conn) :
    c.shutdownIfDisconnecting.tcp = c.tcp := by
  unfold shutdownIfDisconnecting
  split
  · exact shutdownInLoop_tcp c
  · rfl

@[simp] theorem shutdownIfDisconnecting_poller (c : Conn) :
    c.shutdownIfDisconnecting.poller = c.poller := by
  unfold shutdownIfDisconnecting
  split
  · exact shutdownInLoop_poller c
  · rfl

theorem shutdownIfDisconnecting_extends (c : Conn) :
    Extends (· = .shutdownWrite) c.trace c.shutdownIfDisconnecting.trace := by
  unfold shutdownIfDisconnecting
  split
  · exact shutdownInLoop_extends c
  · exact Extends.refl _ _

theorem afterDrain_tcp (c : Conn) : c.afterDrain.tcp = c.disableWriting.tcp := by
  simp [afterDrain]

theorem afterDrain_extends (c : Conn) : Extends IsDraining c.trace c.afterDrain.trace := by
  unfold afterDrain
  refine (queueWriteComplete_extends c.disableWriting).trans ?_
  refine (shutdownIfDisconnecting_extends _).mono ?_
  rintro e rfl
  trivial

theorem afterWrite_extends (c : Conn) (n : Nat) :
    Extends IsDraining c.trace (c.afterWrite n).trace := by
  unfold afterWrite
  split
  · exact afterDrain_extends (c.retrieveOutput n)
  · exact Extends.refl _ _

@[simp] theorem afterWrite_state (c : Conn) (n : Nat) :
    (c.afterWrite n).tcp.state = c.tcp.state := by
  unfold afterWrite
  split
  · rw [afterDrain_tcp]
    rfl
  · rfl

@[simp] theorem afterWrite_inputBuffer (c : Conn) (n : Nat) :
    (c.afterWrite n).tcp.inputBuffer = c.tcp.inputBuffer := by
  unfold afterWrite
  split
  · rw [afterDrain_tcp]
    rfl
  · rfl

@[simp] theorem afterWrite_outputBuffer (c : Conn) (n : Nat) :
    (c.afterWrite n).tcp.outputBuffer = c.tcp.outputBuffer.retrieve n := by
  unfold afterWrite
  split
  · rw [afterDrain_tcp]
    rfl
  · rfl

theorem handleWrite_of_not_writing {c : Conn} (h : c.isWriting = false) (w : WriteResult) :
    c.handleWrite w = c := by
  unfold handleWrite
  rw [if_neg (by simp [h])]

theorem handleWrite_extends (c : Conn) (w : WriteResult) :
    Extends IsWriting c.trace (c.handleWrite w).trace := by
  have hwrite : Extends IsWriting c.trace (c.emit (.write c.offered w)).trace := by
    apply Extends.one
    trivial
  unfold handleWrite
  split
  · split
    · exact hwrite.trans ((afterWrite_extends _ _).mono fun _ => IsDraining.isWriting)
    · exact hwrite
  · exact Extends.refl _ _

@[simp] theorem handleWrite_state (c : Conn) (w : WriteResult) :
    (c.handleWrite w).tcp.state = c.tcp.state := by
  unfold handleWrite
  split
  · split <;> simp
  · rfl

@[simp] theorem handleWrite_inputBuffer (c : Conn) (w : WriteResult) :
    (c.handleWrite w).tcp.inputBuffer = c.tcp.inputBuffer := by
  unfold handleWrite
  split
  · split <;> simp
  · rfl

end Conn

end EchoServer
