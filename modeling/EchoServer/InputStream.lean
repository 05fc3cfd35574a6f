import EchoServer.OutputStream

/-!
# The input stream of a connection

Runs of `handleRead` on an established connection. Each event brings its own
chunk, end of file or error, and its own calls from the callbacks, which
consume the input buffer in any way they like.

The stream is intact when the bytes consumed, followed by the readable bytes of
the input buffer, are the bytes received. User code keeps it intact
(`userCalls_inputStream`), and so does a chunk that leaves room in the writable
area. A chunk that fills the area loses all the bytes put there, since `readFd`
does not move the writer index in that branch (`readInput_inputStream_iff`).
-/

namespace EchoServer

open Runs Trace

namespace Conn

/-- The bytes `readv` has delivered. -/
def receivedBytes (c : Conn) : List Byte := c.trace.flatMap Effect.receivedChunk

/-- The bytes user code has taken out of the input buffer. -/
def consumedBytes (c : Conn) : List Byte := c.trace.flatMap Effect.consumedBytes

/-- Consumed and still readable bytes, in order. -/
def inputStream (c : Conn) : List Byte := c.consumedBytes ++ c.tcp.inputBuffer.readable

/-- What the peer has sent is what has been consumed or can still be read. -/
def InputIntact (c : Conn) : Prop := c.inputStream = c.receivedBytes

instance (c : Conn) : Decidable c.InputIntact :=
  inferInstanceAs (Decidable (c.inputStream = c.receivedBytes))

theorem established_inputIntact (self fd : Nat) (wc hw : Bool) (mark : Nat) :
    (established self fd wc hw mark).InputIntact := by
  simp [InputIntact, inputStream, consumedBytes, receivedBytes, Effect.consumedBytes,
    Effect.receivedChunk]

/-! ## Effects that do not touch the stream -/

/-- Neither side of the stream is read off this effect. -/
def NotInput (e : Effect) : Prop := e.consumedBytes = [] ∧ e.receivedChunk = []

theorem IsSending.notInput {e : Effect} (h : IsSending e) : NotInput e := by
  cases e with
  | write => exact ⟨rfl, rfl⟩
  | queueInLoop => exact ⟨rfl, rfl⟩
  | _ => exact h.elim

theorem inputStream_eq {c c' : Conn} (hbuf : c'.tcp.inputBuffer = c.tcp.inputBuffer)
    (htrace : Extends NotInput c.trace c'.trace) : c'.inputStream = c.inputStream := by
  unfold inputStream consumedBytes
  rw [hbuf, htrace.flatMap_eq fun e he => he.1]

theorem receivedBytes_eq {c c' : Conn} (htrace : Extends NotInput c.trace c'.trace) :
    c'.receivedBytes = c.receivedBytes :=
  htrace.flatMap_eq fun _ he => he.2

/-! ## User code -/

theorem readable_retrieve_append (b : Buffer) (len : Nat) :
    b.readable.take len ++ (b.retrieve len).readable = b.readable := by
  rw [Buffer.readable_retrieve, List.take_append_drop]

/-- Whatever user code retrieves moves from the buffer to the consumed
bytes. -/
theorem userCall_inputStream (c : Conn) (u : UserCall) :
    (c.userCall u).inputStream = c.inputStream := by
  cases u with
  | send data w =>
    simp only [userCall, send]
    split
    · refine inputStream_eq (sendInLoop_inputBuffer c data w) ?_
      exact (sendInLoop_extends c data w).mono fun _ => IsSending.notInput
    · rfl
  | shutdown =>
    simp only [userCall, shutdown]
    split
    · simp [inputStream, consumedBytes, Effect.consumedBytes]
    · rfl
  | retrieve len =>
    simp only [userCall, inputStream, consumedBytes, emit_trace, List.flatMap_append,
      List.flatMap_singleton, Effect.consumedBytes, List.append_assoc]
    congr 1
    exact readable_retrieve_append c.tcp.inputBuffer len
  | retrieveAll =>
    simp [userCall, inputStream, consumedBytes, setInputBuffer, Effect.consumedBytes]
  | retrieveAllAsString =>
    simp [userCall, inputStream, consumedBytes, setInputBuffer, Effect.consumedBytes,
      Buffer.retrieveAllAsString_fst, Buffer.readable_retrieveAllAsString]

theorem userCalls_inputStream (c : Conn) (us : List UserCall) :
    (c.userCalls us).inputStream = c.inputStream := by
  induction us generalizing c with
  | nil => rfl
  | cons u us ih =>
    rw [userCalls_cons, ih]
    exact userCall_inputStream c u

theorem userCalls_receivedBytes (c : Conn) (us : List UserCall) :
    (c.userCalls us).receivedBytes = c.receivedBytes := by
  refine (userCalls_extends c us).flatMap_eq ?_
  intro e he
  cases e with
  | received => exact he.elim
  | _ => rfl

theorem userCalls_inputIntact (c : Conn) (us : List UserCall) :
    (c.userCalls us).InputIntact ↔ c.InputIntact := by
  unfold InputIntact
  rw [userCalls_inputStream, userCalls_receivedBytes]

theorem emit_inputIntact (c : Conn) {e : Effect} (h : NotInput e) :
    (c.emit e).InputIntact ↔ c.InputIntact := by
  have htrace : Extends NotInput c.trace (c.emit e).trace := by
    apply Extends.one
    exact h
  unfold InputIntact
  have hstream : (c.emit e).inputStream = c.inputStream := inputStream_eq rfl htrace
  rw [hstream, receivedBytes_eq htrace]

theorem messageCallback_inputIntact (c : Conn) (us : List UserCall) :
    (c.messageCallback us).InputIntact ↔ c.InputIntact := by
  unfold messageCallback
  rw [userCalls_inputIntact, emit_inputIntact c ⟨rfl, rfl⟩]

theorem handleClose_inputIntact (c : Conn) (us : List UserCall) :
    (c.handleClose us).InputIntact ↔ c.InputIntact := by
  have hstate : (c.setState .kDisconnected).disableAll.InputIntact ↔ c.InputIntact :=
    @emit_inputIntact c (.setState .kDisconnected) ⟨rfl, rfl⟩
  unfold handleClose connectionCallback
  rw [emit_inputIntact _ ⟨rfl, rfl⟩, userCalls_inputIntact, emit_inputIntact _ ⟨rfl, rfl⟩, hstate]

/-! ## handleRead -/

/-- The chunk `readv` delivers leaves room in the writable area, or there is no
such area. -/
def FitsWritable (c : Conn) (chunk : List Byte) : Prop :=
  (chunk.take c.tcp.inputBuffer.readFdCapacity).length < c.tcp.inputBuffer.writableBytes ∨
    c.tcp.inputBuffer.writableBytes = 0

theorem readInput_inputStream_iff {c : Conn} (h : c.InputIntact) (chunk : List Byte) :
    (c.readInput chunk).InputIntact ↔ c.FitsWritable chunk := by
  have hfit := Buffer.readable_readFd_eq_iff c.tcp.inputBuffer
    (chunk.take c.tcp.inputBuffer.readFdCapacity)
  have hreceived : (c.readInput chunk).receivedBytes =
      c.receivedBytes ++ chunk.take c.tcp.inputBuffer.readFdCapacity := by
    simp [receivedBytes, Effect.receivedChunk]
  have hconsumed : (c.readInput chunk).consumedBytes = c.consumedBytes := by
    simp [consumedBytes, Effect.consumedBytes]
  rw [FitsWritable, ← hfit, InputIntact, inputStream, hreceived, hconsumed, ← h, inputStream,
    List.append_assoc, List.append_cancel_left_eq]
  rfl

/-- The condition on one `handleRead`: its chunk, if it gets one, fits. -/
def ReadsWhole (c : Conn) (a : Answers) : Prop :=
  match a.readv with
  | .ok chunk => c.FitsWritable chunk
  | .err _ => True

theorem handleRead_inputIntact_iff {c : Conn} (h : c.InputIntact) (a : Answers) :
    (c.handleRead a).InputIntact ↔ c.ReadsWhole a := by
  unfold handleRead ReadsWhole
  cases a.readv with
  | ok chunk =>
    simp only
    split
    · rw [messageCallback_inputIntact, readInput_inputStream_iff h]
    · rw [handleClose_inputIntact, readInput_inputStream_iff h]
  | err errno =>
    obtain ⟨e, he⟩ := handleError_eq c a.sockOpt a.onConnection
    simp only [he, iff_true]
    rw [handleClose_inputIntact, emit_inputIntact _ ⟨rfl, rfl⟩]
    exact h

end Conn

/-! ## Whole runs -/

open Conn

/-- Input stream integrity. A single `readFd` appends what was delivered, and a
run of `handleRead` events keeps the stream intact, exactly when no chunk fills
a writable area that is not empty. -/
theorem input_stream_intact_iff (b : Buffer) (chunk : List Byte) (self fd : Nat) (wc hw : Bool)
    (mark : Nat) (es : List Answers) :
    ((b.readFd chunk).readable = b.readable ++ chunk ↔
      chunk.length < b.writableBytes ∨ b.writableBytes = 0) ∧
    (Always handleRead (established self fd wc hw mark) InputIntact es ↔
      EachStep handleRead (established self fd wc hw mark) ReadsWhole es) := by
  refine ⟨b.readable_readFd_eq_iff chunk, ?_⟩
  refine always_iff_eachStep (fun _ => True) trivial (fun _ _ _ _ => trivial)
    (established_inputIntact self fd wc hw mark) ?_ es
  intro c a _ hintact
  exact handleRead_inputIntact_iff hintact a

/-- A `readv` that fills the 1024 bytes of a fresh input buffer. -/
def fillingRead : Answers where
  readv := .ok (List.replicate initialSize 1)
  write := .err .eagain
  sockOpt := .ok (.other 0)
  onMessage := []
  onConnection := []

/-- The whole message is lost: the message callback finds an empty buffer. -/
theorem filling_read_lost :
    ¬ Always handleRead (established 1 5 false false 64) InputIntact [fillingRead] := by
  intro h
  have hlast := h [fillingRead] (List.prefix_refl _)
  revert hlast
  decide +kernel

end EchoServer
