import EchoServer.InputStream

/-!
# The echo service

`EchoServer` of main.cc on one connection: `onMessage` takes everything out of
the input buffer and sends it back, `onConnection` only logs. A run is any
sequence of the four callbacks of the channel, with any answers of the kernel.

The service echoes as long as the bytes accepted on the socket, followed by the
pending ones, are the bytes received on it. Between two callbacks the input
buffer is empty with both indices at the front (`Drained`), so what one message
callback sends is what one `readv` has put into the buffer.

* `echoes_iff`: when the service has echoed at every moment of a run;
* `echo_memory`: the input buffer stays below a fixed size, the output buffer
  does not.
-/

namespace EchoServer

open Runs Trace Overlay

namespace Buffer

/-- Both indices are where `retrieveAll` puts them. -/
structure Drained (b : Buffer) : Prop where
  reader : b.readerIndex = cheapPrepend
  writer : b.writerIndex = cheapPrepend

theorem new_drained (n : Nat) : (new n).Drained := ⟨rfl, rfl⟩

theorem retrieveAllAsString_snd (b : Buffer) : b.retrieveAllAsString.2 = b.retrieveAll := by
  simp [retrieveAllAsString, retrieveAsString, retrieve]

namespace Drained

theorem readable {b : Buffer} (h : b.Drained) : b.readable = [] := by
  rw [readable_eq_nil_iff, readableBytes, h.reader, h.writer, Nat.sub_self]

/-- With nothing to slide, the vector grows to what it has to hold. -/
theorem length_append {b : Buffer} (h : b.Drained) (data : List Byte) :
    (b.append data).buffer.length = max b.buffer.length (cheapPrepend + data.length) := by
  have hroom := writableBytes_ensureWritableBytes b data.length
  have hfront := (b.ensureWritableBytes data.length).writer_le_size
  have hsize := b.writer_le_size
  simp only [writableBytes] at hroom
  simp only [append]
  rw [length_overlay (by omega)]
  unfold ensureWritableBytes
  split
  · rename_i hshort
    have hgrow : b.writableBytes + b.prependableBytes - cheapPrepend < data.length := by
      simp only [prependableBytes, h.reader]
      omega
    unfold makeSpace
    rw [if_pos hgrow]
    simp only [length_resize, h.writer]
    simp only [writableBytes, h.writer] at hshort
    rw [h.writer] at hsize
    omega
  · rename_i hfits
    simp only [writableBytes, h.writer] at hfits
    rw [h.writer] at hsize
    omega

theorem length_readFd {b : Buffer} (h : b.Drained) (chunk : List Byte) :
    (b.readFd chunk).buffer.length =
      max b.buffer.length (cheapPrepend + (chunk.length - b.writableBytes)) := by
  have hsize := b.writer_le_size
  have hfill : (b.readvFill chunk).buffer.length = b.buffer.length := by
    simp only [readvFill]
    exact length_overlay (by simp only [List.length_take, writableBytes]; omega)
  unfold readFd
  split
  · simp only [hfill]
    rw [h.writer] at hsize
    omega
  · have hdrained : (b.readvFill chunk).Drained := ⟨h.reader, h.writer⟩
    rw [hdrained.length_append, hfill]
    simp

/-- At end of file nothing is read. -/
theorem readFd_nil {b : Buffer} (h : b.Drained) : (b.readFd []).Drained := by
  unfold readFd
  split
  · exact ⟨h.reader, h.writer⟩
  · simp only [append, ensureWritableBytes, List.drop_nil, List.take_nil, List.length_nil,
      Nat.not_lt_zero, if_false]
    exact ⟨h.reader, h.writer⟩

end Drained

end Buffer

namespace Conn

/-! ## The callbacks of main.cc -/

/-- `EchoServer::onMessage`; `w` answers the write of `sendInLoop`. -/
def onMessage (buf : Buffer) (w : WriteResult) : List UserCall :=
  [.retrieveAllAsString, .send buf.retrieveAllAsString.1 w]

/-- `EchoServer::onConnection` writes a log line and leaves the connection
alone. -/
def onConnection : List UserCall := []

/-- What the kernel answers to one callback. -/
structure SysAnswers where
  readv : ReadResult
  write : WriteResult
  sockOpt : SockOptResult
deriving DecidableEq, Repr

/-- The buffer `handleRead` passes to the message callback. -/
def messageBuffer (c : Conn) : ReadResult → Buffer
  | .ok chunk => (c.readInput chunk).tcp.inputBuffer
  | .err _ => c.tcp.inputBuffer

/-- The answers of the kernel, with the calls `EchoServer` makes. -/
def echoAnswers (c : Conn) (k : SysAnswers) : Answers where
  readv := k.readv
  write := k.write
  sockOpt := k.sockOpt
  onMessage := onMessage (c.messageBuffer k.readv) k.write
  onConnection := onConnection

/-- One callback of the channel. -/
structure Callback where
  part : Part
  answers : SysAnswers
deriving DecidableEq, Repr

def echoStep (c : Conn) (e : Callback) : Conn := c.runPart e.part (c.echoAnswers e.answers)

/-- The bytes a `readv` answered with `chunk` delivers. -/
def delivered (c : Conn) (chunk : List Byte) : List Byte :=
  chunk.take c.tcp.inputBuffer.readFdCapacity

/-- What the peer gets back is what it has sent; `sent` and `received` went over
the socket before the trace began. -/
def EchoesAfter (sent received : List Byte) (c : Conn) : Prop :=
  sent ++ c.outputStream = received ++ c.receivedBytes

/-- From the first byte on. -/
def Echoes (c : Conn) : Prop := c.EchoesAfter [] []

instance (c : Conn) : Decidable c.Echoes :=
  inferInstanceAs (Decidable (c.outputStream = c.receivedBytes))

/-! ## Callbacks without data -/

/-- Neither stream and no buffer is touched. -/
structure EchoIdle (c c' : Conn) : Prop where
  acceptedBytes : c'.acceptedBytes = c.acceptedBytes
  receivedBytes : c'.receivedBytes = c.receivedBytes
  inputBuffer : c'.tcp.inputBuffer = c.tcp.inputBuffer
  outputBuffer : c'.tcp.outputBuffer = c.tcp.outputBuffer

theorem EchoIdle.trans {c c' c'' : Conn} (h : EchoIdle c c') (h' : EchoIdle c' c'') :
    EchoIdle c c'' :=
  ⟨h'.acceptedBytes.trans h.acceptedBytes, h'.receivedBytes.trans h.receivedBytes,
    h'.inputBuffer.trans h.inputBuffer, h'.outputBuffer.trans h.outputBuffer⟩

theorem EchoIdle.outputStream {c c' : Conn} (h : EchoIdle c c') :
    c'.outputStream = c.outputStream := by
  unfold Conn.outputStream
  rw [h.acceptedBytes, h.outputBuffer]

theorem EchoIdle.echoesAfter_iff {c c' : Conn} (h : EchoIdle c c') {sent received : List Byte} :
    c'.EchoesAfter sent received ↔ c.EchoesAfter sent received := by
  unfold EchoesAfter
  rw [h.outputStream, h.receivedBytes]

theorem emit_echoIdle (c : Conn) {e : Effect} (hw : e.accepted = []) (hr : e.receivedChunk = []) :
    EchoIdle c (c.emit e) := by
  refine ⟨?_, ?_, rfl, rfl⟩
  · simp [acceptedBytes, hw]
  · simp [receivedBytes, hr]

theorem handleClose_echoIdle (c : Conn) : EchoIdle c (c.handleClose onConnection) := by
  have hset : EchoIdle c ((c.setState .kDisconnected).disableAll) := by
    obtain ⟨haccepted, hreceived, _⟩ := @emit_echoIdle c (.setState .kDisconnected) rfl rfl
    exact ⟨haccepted, hreceived, rfl, rfl⟩
  have hdown : EchoIdle ((c.setState .kDisconnected).disableAll)
      (((c.setState .kDisconnected).disableAll).connectionCallback onConnection) :=
    emit_echoIdle _ rfl rfl
  exact (hset.trans hdown).trans (emit_echoIdle _ rfl rfl)

theorem handleError_echoIdle (c : Conn) (opt : SockOptResult) :
    EchoIdle c (c.handleError opt onConnection) := by
  obtain ⟨e, he⟩ := handleError_eq c opt onConnection
  rw [he]
  exact (@emit_echoIdle c (.soError e) rfl rfl).trans (handleClose_echoIdle _)

/-! ## The message callback -/

theorem messageCallback_eq (c : Conn) (w : WriteResult) :
    c.messageCallback (onMessage c.tcp.inputBuffer w) =
      ((c.emit .messageCallback).userCall .retrieveAllAsString).send
        c.tcp.inputBuffer.readable w := by
  rw [← Buffer.retrieveAllAsString_fst]
  rfl

/-- The string handed to `sendInLoop` is lost on a broken socket. -/
theorem sendInLoop_stream_of_fault (c : Conn) (data : List Byte) (w : WriteResult)
    (hfault : c.faultError w = true) : (c.sendInLoop data w).outputStream = c.outputStream := by
  have hleaves : c.leavesRest data w = false := by
    simp [leavesRest, hfault]
  have hnwrote : c.nwrote data w = 0 := by
    simp only [faultError, Bool.and_eq_true] at hfault
    cases w with
    | ok n => simp [WriteResult.isFault] at hfault
    | err e => simp [nwrote, WriteResult.count]
  unfold sendInLoop outputStream
  rw [if_neg (by simp [hleaves]), acceptedBytes_tryDirectWrite, tryDirectWrite_tcp, hnwrote]
  simp

/-- What `send` adds to the output stream. -/
theorem send_stream (c : Conn) (data : List Byte) (w : WriteResult) :
    (c.send data w).outputStream =
      c.outputStream ++
        (if c.tcp.state = .kConnected ∧ c.faultError w = false then data else []) := by
  unfold send
  by_cases hstate : c.tcp.state = .kConnected
  · by_cases hfault : c.faultError w = false
    · rw [if_pos hstate, if_pos ⟨hstate, hfault⟩]
      exact sendInLoop_stream c data w hfault
    · rw [if_pos hstate, if_neg (fun h => hfault h.2), List.append_nil]
      exact sendInLoop_stream_of_fault c data w (by simpa using hfault)
  · rw [if_neg hstate, if_neg (fun h => hstate h.1), List.append_nil]

theorem send_receivedBytes (c : Conn) (data : List Byte) (w : WriteResult) :
    (c.send data w).receivedBytes = c.receivedBytes :=
  userCalls_receivedBytes c [.send data w]

theorem send_inputBuffer (c : Conn) (data : List Byte) (w : WriteResult) :
    (c.send data w).tcp.inputBuffer = c.tcp.inputBuffer := by
  unfold send
  split
  · exact sendInLoop_inputBuffer c data w
  · rfl

/-- The bytes the message callback finds in the buffer. -/
def message (c : Conn) (chunk : List Byte) : List Byte :=
  (c.readInput chunk).tcp.inputBuffer.readable

/-- `handleRead` with data: the message is sent after it has been taken out of
the buffer. -/
theorem handleRead_data {c : Conn} {k : SysAnswers} {chunk : List Byte}
    (hread : k.readv = .ok chunk) (hdata : c.delivered chunk ≠ []) :
    c.handleRead (c.echoAnswers k) =
      (((c.readInput chunk).emit .messageCallback).userCall .retrieveAllAsString).send
        (c.message chunk) k.write := by
  have hpos : 0 < (chunk.take c.tcp.inputBuffer.readFdCapacity).length :=
    List.length_pos_of_ne_nil hdata
  have hmessage : (c.echoAnswers k).onMessage =
      onMessage (c.readInput chunk).tcp.inputBuffer k.write := by
    simp [echoAnswers, messageBuffer, hread]
  have hreadv : (c.echoAnswers k).readv = .ok chunk := hread
  unfold handleRead
  rw [hreadv]
  simp only [if_pos hpos, hmessage]
  exact messageCallback_eq _ _

/-- Without data the connection is closed, whatever the reason. -/
theorem handleRead_close {c : Conn} {k : SysAnswers}
    (hnone : ∀ chunk, k.readv = .ok chunk → c.delivered chunk = []) :
    (∃ chunk, c.handleRead (c.echoAnswers k) = (c.readInput chunk).handleClose onConnection ∧
      c.delivered chunk = []) ∨
    c.handleRead (c.echoAnswers k) = c.handleError k.sockOpt onConnection := by
  unfold handleRead
  cases hread : (c.echoAnswers k).readv with
  | ok chunk =>
    have hnil : chunk.take c.tcp.inputBuffer.readFdCapacity = [] := hnone chunk hread
    left
    refine ⟨chunk, ?_, hnil⟩
    simp only [hnil, List.length_nil, Nat.lt_irrefl, if_false]
    rfl
  | err e => exact Or.inr rfl

theorem message_eq {c : Conn} (h : c.tcp.inputBuffer.Drained) (chunk : List Byte) :
    c.message chunk = c.delivered chunk ↔ c.FitsWritable chunk := by
  have hfit := Buffer.readable_readFd_eq_iff c.tcp.inputBuffer (c.delivered chunk)
  rw [h.readable, List.nil_append] at hfit
  exact hfit

theorem readInput_streams (c : Conn) (chunk : List Byte) :
    (c.readInput chunk).outputStream = c.outputStream ∧
      (c.readInput chunk).receivedBytes = c.receivedBytes ++ c.delivered chunk := by
  constructor
  · simp [outputStream, acceptedBytes, Effect.accepted]
  · simp [receivedBytes, Effect.receivedChunk, delivered]

theorem readInput_close_echoIdle {c : Conn} {chunk : List Byte} (h : c.delivered chunk = []) :
    (c.readInput chunk).outputStream = c.outputStream ∧
      (c.readInput chunk).receivedBytes = c.receivedBytes := by
  obtain ⟨hout, hreceived⟩ := readInput_streams c chunk
  rw [h, List.append_nil] at hreceived
  exact ⟨hout, hreceived⟩

/-! ## One callback -/

/-- The condition on one callback: data is delivered only while the connection
is up and its socket is not broken, and it fits; a write takes readable
bytes. -/
def EchoesBack (c : Conn) (e : Callback) : Prop :=
  match e.part with
  | .close => True
  | .error => True
  | .read => ∀ chunk, e.answers.readv = .ok chunk → c.delivered chunk ≠ [] →
      c.tcp.state = .kConnected ∧ c.faultError e.answers.write = false ∧ c.FitsWritable chunk
  | .write => c.isWriting = true → c.WritesReadable e.answers.write

theorem handleRead_data_streams {c : Conn} {k : SysAnswers} {chunk : List Byte}
    (hread : k.readv = .ok chunk) (hdata : c.delivered chunk ≠ []) :
    (c.handleRead (c.echoAnswers k)).receivedBytes = c.receivedBytes ++ c.delivered chunk ∧
    (c.handleRead (c.echoAnswers k)).outputStream = c.outputStream ++
      (if c.tcp.state = .kConnected ∧ c.faultError k.write = false then c.message chunk
        else []) := by
  obtain ⟨hout, hreceived⟩ := readInput_streams c chunk
  rw [handleRead_data hread hdata, send_receivedBytes, send_stream]
  constructor
  · rw [← hreceived]
    have hcallback : EchoIdle (c.readInput chunk) ((c.readInput chunk).emit .messageCallback) :=
      emit_echoIdle _ rfl rfl
    exact (userCalls_receivedBytes _ [.retrieveAllAsString]).trans hcallback.receivedBytes
  · rw [← hout]
    congr 1
    simp [outputStream, acceptedBytes, userCall, setInputBuffer, Effect.accepted]

theorem handleRead_echoes_iff {c : Conn} (hdrained : c.tcp.inputBuffer.Drained)
    {sent received : List Byte} (h : c.EchoesAfter sent received) (k : SysAnswers) :
    (c.handleRead (c.echoAnswers k)).EchoesAfter sent received ↔ c.EchoesBack ⟨.read, k⟩ := by
  simp only [EchoesBack]
  by_cases hdata : ∃ chunk, k.readv = .ok chunk ∧ c.delivered chunk ≠ []
  · rcases hdata with ⟨chunk, hread, hdata⟩
    obtain ⟨hreceived, hout⟩ := handleRead_data_streams hread hdata
    unfold EchoesAfter at h ⊢
    rw [hreceived, hout, ← List.append_assoc, ← List.append_assoc, h, List.append_cancel_left_eq]
    constructor
    · intro heq chunk' hread' _
      obtain rfl : chunk = chunk' := by
        simpa [hread] using hread'
      split at heq
      · rename_i hup
        exact ⟨hup.1, hup.2, (message_eq hdrained chunk).mp heq⟩
      · exact absurd heq.symm hdata
    · intro hback
      obtain ⟨hstate, hfault, hfits⟩ := hback chunk hread hdata
      rw [if_pos ⟨hstate, hfault⟩]
      exact (message_eq hdrained chunk).mpr hfits
  · -- nothing is delivered, and nothing sent back
    have hnone : ∀ chunk, k.readv = .ok chunk → c.delivered chunk = [] := by
      intro chunk hread
      by_contra hne
      exact hdata ⟨chunk, hread, hne⟩
    have hechoes : (c.handleRead (c.echoAnswers k)).EchoesAfter sent received := by
      rcases handleRead_close hnone with ⟨chunk, heq, hnil⟩ | heq
      · rw [heq, (handleClose_echoIdle _).echoesAfter_iff]
        obtain ⟨hout, hreceived⟩ := readInput_close_echoIdle hnil
        unfold EchoesAfter
        rw [hout, hreceived]
        exact h
      · rw [heq, (handleError_echoIdle c k.sockOpt).echoesAfter_iff]
        exact h
    simp only [hechoes, true_iff]
    intro chunk hread hne
    exact absurd (hnone chunk hread) hne

theorem handleWrite_receivedBytes (c : Conn) (w : WriteResult) :
    (c.handleWrite w).receivedBytes = c.receivedBytes := by
  refine (handleWrite_extends c w).flatMap_eq ?_
  intro e he
  cases e with
  | received => exact he.elim
  | _ => rfl

/-- One callback keeps the service echoing exactly when it meets its
condition. -/
theorem echoStep_iff {c : Conn} (hdrained : c.tcp.inputBuffer.Drained)
    {sent received : List Byte} (h : c.EchoesAfter sent received) (e : Callback) :
    (c.echoStep e).EchoesAfter sent received ↔ c.EchoesBack e := by
  rcases e with ⟨p, k⟩
  cases p with
  | close =>
    simp only [EchoesBack, iff_true]
    exact (handleClose_echoIdle c).echoesAfter_iff.mpr h
  | error =>
    simp only [EchoesBack, iff_true]
    exact (handleError_echoIdle c k.sockOpt).echoesAfter_iff.mpr h
  | read => exact handleRead_echoes_iff hdrained h k
  | write =>
    have hstep : c.echoStep ⟨.write, k⟩ = c.handleWrite k.write := rfl
    rw [hstep]
    simp only [EchoesBack]
    unfold EchoesAfter at h ⊢
    rw [handleWrite_receivedBytes, ← h, List.append_cancel_left_eq]
    by_cases hw : c.isWriting = true
    · simp only [hw, forall_const]
      exact handleWrite_stream_iff hw k.write
    · rw [handleWrite_of_not_writing (by simpa using hw)]
      simp [hw]

/-! ## The input buffer -/

/-- What every callback leaves of the input buffer: nothing to read, at least
the size it began with, and no more than one `extraBuffer`. -/
structure InputBounded (c : Conn) : Prop where
  drained : c.tcp.inputBuffer.Drained
  lower : cheapPrepend + initialSize ≤ c.tcp.inputBuffer.buffer.length
  upper : c.tcp.inputBuffer.buffer.length ≤ cheapPrepend + extraBufferSize

theorem InputBounded.of_inputBuffer {c c' : Conn} (h : c.InputBounded)
    (hbuf : c'.tcp.inputBuffer = c.tcp.inputBuffer) : c'.InputBounded :=
  ⟨hbuf ▸ h.drained, hbuf ▸ h.lower, hbuf ▸ h.upper⟩

/-- One `readv` adds to the vector at most what overflows into `extraBuffer`. -/
theorem InputBounded.readInput_length {c : Conn} (h : c.InputBounded) (chunk : List Byte) :
    cheapPrepend + initialSize ≤ (c.readInput chunk).tcp.inputBuffer.buffer.length ∧
    (c.readInput chunk).tcp.inputBuffer.buffer.length ≤ cheapPrepend + extraBufferSize := by
  have hlength := h.drained.length_readFd (c.delivered chunk)
  have hdelivered : (c.delivered chunk).length - c.tcp.inputBuffer.writableBytes ≤
      extraBufferSize := by
    have htake : (c.delivered chunk).length ≤ c.tcp.inputBuffer.readFdCapacity := by
      rw [delivered, List.length_take]
      exact Nat.min_le_left _ _
    unfold Buffer.readFdCapacity at htake
    split at htake
    · omega
    · omega
  have hread : (c.readInput chunk).tcp.inputBuffer =
      c.tcp.inputBuffer.readFd (c.delivered chunk) := rfl
  have hlower := h.lower
  have hupper := h.upper
  rw [hread, hlength]
  omega

theorem InputBounded.echoStep {c : Conn} (h : c.InputBounded) (e : Callback) :
    (c.echoStep e).InputBounded := by
  rcases e with ⟨p, k⟩
  cases p with
  | close => exact h.of_inputBuffer (handleClose_echoIdle c).inputBuffer
  | error => exact h.of_inputBuffer (handleError_echoIdle c k.sockOpt).inputBuffer
  | write => exact h.of_inputBuffer (handleWrite_inputBuffer c k.write)
  | read =>
    by_cases hdata : ∃ chunk, k.readv = .ok chunk ∧ c.delivered chunk ≠ []
    · rcases hdata with ⟨chunk, hread, hdata⟩
      obtain ⟨hlower, hupper⟩ := h.readInput_length chunk
      -- the message is taken out before it is sent
      have hbuf : (c.handleRead (c.echoAnswers k)).tcp.inputBuffer =
          (c.readInput chunk).tcp.inputBuffer.retrieveAll := by
        rw [handleRead_data hread hdata, send_inputBuffer]
        exact Buffer.retrieveAllAsString_snd _
      refine ⟨?_, ?_, ?_⟩
      · change (c.handleRead (c.echoAnswers k)).tcp.inputBuffer.Drained
        rw [hbuf]
        exact ⟨rfl, rfl⟩
      · change _ ≤ (c.handleRead (c.echoAnswers k)).tcp.inputBuffer.buffer.length
        rw [hbuf]
        exact hlower
      · change (c.handleRead (c.echoAnswers k)).tcp.inputBuffer.buffer.length ≤ _
        rw [hbuf]
        exact hupper
    · have hnone : ∀ chunk, k.readv = .ok chunk → c.delivered chunk = [] := by
        intro chunk hread
        by_contra hne
        exact hdata ⟨chunk, hread, hne⟩
      rcases handleRead_close hnone with ⟨chunk, heq, hnil⟩ | heq
      · obtain ⟨hlower, hupper⟩ := h.readInput_length chunk
        have hread : (c.readInput chunk).tcp.inputBuffer = c.tcp.inputBuffer.readFd [] := by
          rw [← hnil]
          rfl
        have hinput : (c.readInput chunk).InputBounded := by
          refine ⟨?_, hlower, hupper⟩
          rw [hread]
          exact h.drained.readFd_nil
        have hclosed := hinput.of_inputBuffer (handleClose_echoIdle (c.readInput chunk)).inputBuffer
        rw [← heq] at hclosed
        exact hclosed
      · have hclosed := h.of_inputBuffer (handleError_echoIdle c k.sockOpt).inputBuffer
        rw [← heq] at hclosed
        exact hclosed

end Conn

/-! ## Whole runs -/

open Conn

section
variable (self fd : Nat) (wc hw : Bool) (mark : Nat)

theorem established_inputBounded : (established self fd wc hw mark).InputBounded := by
  refine ⟨Buffer.new_drained initialSize, ?_, ?_⟩
  · simp [Buffer.new]
  · simp [Buffer.new, initialSize, extraBufferSize]

theorem established_echoes : (established self fd wc hw mark).Echoes := by
  unfold Echoes EchoesAfter
  rw [established_outputStream]
  simp [receivedBytes, Effect.receivedChunk]

/-- The echo is faithful: at every moment of a run the bytes the peer has been
sent, followed by the pending ones, are the bytes it has sent itself, exactly
when every callback so far met its condition. -/
theorem echoes_iff (es : List Callback) :
    Always echoStep (established self fd wc hw mark) Echoes es ↔
      EachStep echoStep (established self fd wc hw mark) EchoesBack es := by
  refine always_iff_eachStep InputBounded (established_inputBounded self fd wc hw mark) ?_
    (established_echoes self fd wc hw mark) ?_ es
  · intro c e hinput _
    exact hinput.echoStep e
  · intro c e hinput hechoes
    exact echoStep_iff hinput.drained hechoes e

/-! ## Memory -/

/-- What a socket that refuses everything leaves pending. -/
theorem sendInLoop_readable_of_refused (c : Conn) (data : List Byte) {e : Errno}
    (hfault : (WriteResult.err e).isFault = false) :
    (c.sendInLoop data (.err e)).tcp.outputBuffer.readable =
      c.tcp.outputBuffer.readable ++ data := by
  have hnwrote : c.nwrote data (.err e) = 0 := by
    simp [nwrote, WriteResult.count]
  unfold sendInLoop
  rw [hnwrote]
  split
  · rw [bufferOutput_outputBuffer, tryDirectWrite_tcp, Buffer.readable_append, List.drop_zero]
  · rename_i hrest
    have hempty : data = [] := by
      simpa [leavesRest, faultError, hfault, hnwrote] using hrest
    rw [tryDirectWrite_tcp, hempty, List.append_nil]

/-- A byte arrives and the socket takes none. -/
def stalledRead : Callback where
  part := .read
  answers := ⟨.ok [0], .err .eagain, .ok (.other 0)⟩

/-- The connection is up, and `n` bytes are pending. -/
structure Stalled (n : Nat) (c : Conn) : Prop where
  input : c.InputBounded
  state : c.tcp.state = .kConnected
  pending : c.tcp.outputBuffer.readableBytes = n

theorem Stalled.step {n : Nat} {c : Conn} (h : Stalled n c) :
    Stalled (n + 1) (c.echoStep stalledRead) := by
  have hroom : 1 < c.tcp.inputBuffer.writableBytes := by
    have hlower := h.input.lower
    simp only [Buffer.writableBytes, h.input.drained.writer]
    simp only [cheapPrepend, initialSize] at hlower ⊢
    omega
  have hdelivered : c.delivered [0] = [0] := by
    refine List.take_of_length_le ?_
    unfold Buffer.readFdCapacity
    split
    · simp [extraBufferSize]
    · exact Nat.le_of_lt hroom
  have hmessage : c.message [0] = [0] := by
    have hfits : c.FitsWritable [0] := by
      left
      change (c.delivered [0]).length < _
      rw [hdelivered]
      exact hroom
    rw [(message_eq h.input.drained [0]).mpr hfits, hdelivered]
  have hstep : c.echoStep stalledRead =
      (((c.readInput [0]).emit .messageCallback).userCall .retrieveAllAsString).sendInLoop [0]
        (.err .eagain) := by
    have hread : c.echoStep stalledRead = _ :=
      @handleRead_data c stalledRead.answers [0] rfl (by simp [hdelivered])
    rw [hread, hmessage]
    exact if_pos h.state
  refine ⟨h.input.echoStep stalledRead, ?_, ?_⟩
  · rw [hstep, sendInLoop_state]
    exact h.state
  · rw [hstep, ← Buffer.length_readable, sendInLoop_readable_of_refused _ _ rfl,
      List.length_append, Buffer.length_readable]
    exact congrArg (· + 1) h.pending

theorem Stalled.run {n : Nat} {c : Conn} (h : Stalled n c) (k : Nat) :
    Stalled (n + k) (Runs.run echoStep c (List.replicate k stalledRead)) := by
  induction k generalizing n c with
  | zero => exact h
  | succ k ih =>
    have hrest := ih h.step
    rw [Nat.add_right_comm, Nat.add_assoc] at hrest
    exact hrest

/-- Whatever a peer does, the input buffer is empty between two callbacks and
holds at most one `extraBuffer`. The output buffer has no bound: a peer that
sends and does not read fills it byte by byte. -/
theorem echo_memory :
    (∀ es, Always echoStep (established self fd wc hw mark)
      (fun c => c.tcp.inputBuffer.readable = [] ∧
        c.tcp.inputBuffer.buffer.length ≤ cheapPrepend + extraBufferSize) es) ∧
    ∀ n, ∃ es, (Runs.run echoStep (established self fd wc hw mark)
      es).tcp.outputBuffer.readableBytes = n := by
  constructor
  · intro es pre _
    have hinput : (Runs.run echoStep (established self fd wc hw mark) pre).InputBounded :=
      run_invariant InputBounded (fun _ e h => h.echoStep e)
        (established_inputBounded self fd wc hw mark) pre
    exact ⟨hinput.drained.readable, hinput.upper⟩
  · intro n
    have hstart : Stalled 0 (established self fd wc hw mark) :=
      ⟨established_inputBounded self fd wc hw mark, rfl, rfl⟩
    have hend := hstart.run n
    rw [Nat.zero_add] at hend
    exact ⟨List.replicate n stalledRead, hend.pending⟩

end

end EchoServer
