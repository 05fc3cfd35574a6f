import EchoServer.WriteInterest

/-!
# What a connection waits for

From `connectEstablished` until it is closed, a connection asks its poller for
input, and for room in the socket while output is pending, and for nothing
else (`Attentive`). This is a matter of the connection alone: it holds whatever
the poller and the other threads do. `closes` says when an operation ends in
state `KDisconnected`.
-/

namespace EchoServer

open Trace

namespace TcpConnection

/-- Input, and room for the output that is pending. -/
def interest (t : TcpConnection) : EventMask :=
  if t.outputBuffer.readable = [] then Channel.readEvent
  else Channel.readEvent ||| Channel.writeEvent

structure Attentive (t : TcpConnection) : Prop where
  connecting : t.state = .kConnecting →
    t.channel.events = Channel.noneEvent ∧ t.outputBuffer.readable = []
  opened : t.state = .kConnected ∨ t.state = .kDisconnecting → t.channel.events = t.interest

/-- Only the state, the event set and the output buffer matter. -/
theorem Attentive.of_same {t t' : TcpConnection} (h : t.Attentive) (hstate : t'.state = t.state)
    (hchannel : t'.channel.events = t.channel.events)
    (houtput : t'.outputBuffer = t.outputBuffer) : t'.Attentive := by
  constructor
  · intro hconnecting
    rw [hstate] at hconnecting
    rw [hchannel, houtput]
    exact h.connecting hconnecting
  · intro hopen
    rw [hstate] at hopen
    rw [hchannel, interest, houtput]
    exact h.opened hopen

/-- Once it is closed nothing is asked of a connection. -/
theorem attentive_of_disconnected {t : TcpConnection} (h : t.state = .kDisconnected) :
    t.Attentive := by
  constructor
  · intro hstate
    simp [h] at hstate
  · intro hstate
    simp [h] at hstate

theorem new_attentive (self fd : Nat) (wc hw : Bool) (mark : Nat) :
    (TcpConnection.new self fd wc hw mark).Attentive := by
  constructor
  · intro _
    exact ⟨rfl, Buffer.readable_new initialSize⟩
  · intro hstate
    simp [TcpConnection.new] at hstate

end TcpConnection

namespace Conn

/-! ## Sending -/

/-- With something to keep, the connection waits for room too. -/
theorem bufferOutput_events {c : Conn} (h : c.tcp.channel.events = c.tcp.interest)
    (rest : List Byte) :
    (c.bufferOutput rest).tcp.channel.events = Channel.readEvent ||| Channel.writeEvent := by
  by_cases hpending : c.tcp.outputBuffer.readable = []
  · have hevents : c.tcp.channel.events = Channel.readEvent := by
      rw [h, TcpConnection.interest, if_pos hpending]
    have hwriting : c.isWriting = false := by
      rw [isWriting, Channel.isWriting, hevents]
      decide
    have hset : ((c.checkHighWater rest.length).setOutputBuffer
        (c.tcp.outputBuffer.append rest)).tcp.channel = c.tcp.channel := by
      simp [setOutputBuffer]
    unfold bufferOutput ensureWriting
    rw [if_pos (by rw [isWriting, hset]; simpa [isWriting] using hwriting), enableWriting,
      setEvents_events, hset, hevents]
  · have hevents : c.tcp.channel.events = Channel.readEvent ||| Channel.writeEvent := by
      rw [h, TcpConnection.interest, if_neg hpending]
    have hwriting : c.isWriting = true := by
      rw [isWriting, Channel.isWriting, hevents]
      decide
    rw [bufferOutput_channel_of_writing hwriting, hevents]

theorem sendInLoop_attentive {c : Conn} (h : c.tcp.Attentive) (hstate : c.tcp.state = .kConnected)
    (data : List Byte) (w : WriteResult) : (c.sendInLoop data w).tcp.Attentive := by
  have hopen : c.tcp.channel.events = c.tcp.interest := h.opened (Or.inl hstate)
  constructor
  · intro hconnecting
    rw [sendInLoop_state, hstate] at hconnecting
    cases hconnecting
  · intro _
    unfold sendInLoop
    split
    · rename_i hrest
      have hne := leavesRest_length hrest
      have hpending : ((c.tryDirectWrite data w).bufferOutput
          (data.drop (c.nwrote data w))).tcp.outputBuffer.readable ≠ [] := by
        rw [bufferOutput_outputBuffer, Buffer.readable_append]
        simp [hne]
      rw [TcpConnection.interest, if_neg hpending]
      exact bufferOutput_events (by rw [tryDirectWrite_tcp, hopen]) _
    · rw [tryDirectWrite_tcp, hopen]

/-! ## User code -/

theorem OnlyConsumes.attentive {c c' : Conn} (h : OnlyConsumes c c') (hc : c.tcp.Attentive) :
    c'.tcp.Attentive :=
  hc.of_same h.state (by rw [h.channel]) h.outputBuffer

theorem userCall_attentive {c : Conn} (h : c.tcp.Attentive) (u : UserCall) :
    (c.userCall u).tcp.Attentive := by
  by_cases hstate : c.tcp.state = .kConnected
  · cases u with
    | send data w =>
      simp only [userCall, send, if_pos hstate]
      exact sendInLoop_attentive h hstate data w
    | shutdown =>
      simp only [userCall, shutdown, if_pos hstate]
      constructor
      · intro hconnecting
        cases hconnecting
      · intro _
        exact h.opened (Or.inl hstate)
    | retrieve | retrieveAll | retrieveAllAsString => exact h.of_same rfl rfl rfl
  · exact (userCall_onlyConsumes hstate u).attentive h

theorem userCalls_attentive {c : Conn} (h : c.tcp.Attentive) (us : List UserCall) :
    (c.userCalls us).tcp.Attentive := by
  induction us generalizing c with
  | nil => exact h
  | cons u us ih => exact ih (userCall_attentive h u)

/-! ## Handlers -/

theorem handleClose_attentive (c : Conn) (us : List UserCall) :
    (c.handleClose us).tcp.Attentive :=
  TcpConnection.attentive_of_disconnected (handleClose_state c us)

theorem handleRead_attentive {c : Conn} (h : c.tcp.Attentive) (a : Answers) :
    (c.handleRead a).tcp.Attentive := by
  rcases handleRead_cases c a with ⟨chunk, hread⟩ | ⟨chunk, hread⟩ | ⟨e, hread⟩
  · rw [hread]
    have hinput : (c.readInput chunk).tcp.Attentive := h.of_same rfl rfl rfl
    have hcall : ((c.readInput chunk).emit .messageCallback).tcp.Attentive := hinput
    exact userCalls_attentive hcall a.onMessage
  · rw [hread]
    exact handleClose_attentive _ _
  · rw [hread]
    exact handleClose_attentive _ _

/-- Without draining the output stays pending and the event set as it is. -/
theorem handleWrite_keeps {c : Conn} (hwriting : c.isWriting = true)
    (hpending : c.tcp.outputBuffer.readable ≠ []) {w : WriteResult} (hdrains : c.drains w = false) :
    (c.handleWrite w).tcp.channel = c.tcp.channel ∧
      (c.handleWrite w).tcp.outputBuffer.readable ≠ [] := by
  unfold handleWrite
  rw [if_pos hwriting]
  split
  · rename_i hpos
    have hleft : ((c.emit (.write c.offered w)).retrieveOutput
        (c.writeCount w).toNat).tcp.outputBuffer.readableBytes ≠ 0 := by
      simpa [drains, hwriting, hpos, retrieveOutput] using hdrains
    unfold afterWrite
    rw [if_neg hleft]
    refine ⟨rfl, ?_⟩
    rw [Ne, Buffer.readable_eq_nil_iff]
    exact hleft
  · exact ⟨rfl, hpending⟩

theorem handleWrite_attentive {c : Conn} (h : c.tcp.Attentive) (w : WriteResult) :
    (c.handleWrite w).tcp.Attentive := by
  by_cases hwriting : c.isWriting = true
  · have hstarted : c.tcp.state ≠ .kConnecting := by
      intro hconnecting
      have hnot := isWriting_of_noneEvent (h.connecting hconnecting).1
      simp [hnot] at hwriting
    constructor
    · intro hconnecting
      rw [handleWrite_state] at hconnecting
      exact absurd hconnecting hstarted
    · intro hopen
      rw [handleWrite_state] at hopen
      have hevents := h.opened hopen
      have hpending : c.tcp.outputBuffer.readable ≠ [] := by
        intro hempty
        rw [TcpConnection.interest, if_pos hempty] at hevents
        rw [isWriting, Channel.isWriting, hevents] at hwriting
        revert hwriting
        decide
      rw [TcpConnection.interest, if_neg hpending] at hevents
      by_cases hdrains : c.drains w = true
      · -- nothing is left, and the channel stops waiting for room
        have hempty := handleWrite_readable_of_drains hdrains
        rw [TcpConnection.interest, if_pos hempty, handleWrite_of_drains hdrains, afterDrain_tcp,
          disableWriting, setEvents_events]
        show c.tcp.channel.events &&& ~~~Channel.writeEvent = Channel.readEvent
        rw [hevents]
        decide
      · have hdrains' : c.drains w = false := by simpa using hdrains
        obtain ⟨hkept, hleft⟩ := handleWrite_keeps hwriting hpending hdrains'
        rw [TcpConnection.interest, if_neg hleft, hkept, hevents]
  · rw [handleWrite_of_not_writing (by simpa using hwriting)]
    exact h

theorem runPart_attentive {c : Conn} (h : c.tcp.Attentive) (p : Part) (a : Answers) :
    (c.runPart p a).tcp.Attentive := by
  cases p with
  | close => exact handleClose_attentive c a.onConnection
  | error =>
    obtain ⟨e, he⟩ := handleError_eq c a.sockOpt a.onConnection
    rw [runPart, he]
    exact handleClose_attentive _ _
  | read => exact handleRead_attentive h a
  | write => exact handleWrite_attentive h a.write

/-! ## Establishing and destroying -/

theorem connectEstablished_attentive {c : Conn} (h : c.tcp.Attentive)
    (hstate : c.tcp.state = .kConnecting) (us : List UserCall) :
    (c.connectEstablished us).tcp.Attentive := by
  obtain ⟨hnone, hempty⟩ := h.connecting hstate
  have hup : (((c.setState .kConnected).enableReading).emit
      (.connectionCallback true)).tcp.Attentive := by
    constructor
    · intro hconnecting
      cases hconnecting
    · intro _
      have hevents : ((c.setState .kConnected).enableReading).tcp.channel.events =
          Channel.noneEvent ||| Channel.readEvent := by
        rw [enableReading, setEvents_events, setState_channel, hnone]
      have houtput : ((c.setState .kConnected).enableReading).tcp.outputBuffer.readable = [] :=
        hempty
      rw [emit_tcp, TcpConnection.interest, if_pos houtput, hevents]
      decide
  exact userCalls_attentive hup us

theorem connectDestroyed_attentive {c : Conn} (h : c.tcp.Attentive) (us : List UserCall) :
    (c.connectDestroyed us).tcp.Attentive := by
  unfold connectDestroyed connectDestroyedAfter
  split
  · refine TcpConnection.attentive_of_disconnected ?_
    exact (notifyDown_onlyConsumes c us).state
  · refine h.of_same rfl ?_ rfl
    show (c.poller.removeChannel c.tcp.channel).2.events = c.tcp.channel.events
    rw [EPollPoller.removeChannel_channel]

end Conn

end EchoServer
