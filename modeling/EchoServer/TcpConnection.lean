import EchoServer.Buffer
import EchoServer.Poller

/-!
# TcpConnection

The handlers and the public operations of one connection, as its loop thread
runs them. The environment's part is passed in: the answers of `readv`,
`write` and `getsockopt`, and, for each callback, the calls the user code
makes from it. What leaves the connection (system calls, callbacks, functors
handed to the loop) is recorded in `trace`, in order.

`handleEventWithGuard` runs the parts that `dispatch` selects from the event
mask. `connectDestroyed` takes the value of `state_` that its test read, so
that a later layer can separate the test from the store.
-/

namespace EchoServer

/-! ## Data -/

/-- `StateE`. -/
inductive StateE where
  | kConnecting
  | kConnected
  | kDisconnecting
  | kDisconnected
deriving DecidableEq, Repr

/-- The error numbers the code tells apart; `EAGAIN` is `EWOULDBLOCK`. -/
inductive Errno where
  | eagain
  | eintr
  | epipe
  | econnreset
  | other (code : Nat)
deriving DecidableEq, Repr

/-- The answer of `write`. A count above what was offered is read as all of it. -/
inductive WriteResult where
  | ok (n : Nat)
  | err (e : Errno)
deriving DecidableEq, Repr

/-- The answer of `readv`: the bytes delivered, or an error. -/
inductive ReadResult where
  | ok (chunk : List Byte)
  | err (e : Errno)
deriving DecidableEq, Repr

/-- The answer of `getsockopt(SO_ERROR)`. -/
inductive SockOptResult where
  | ok (soError : Errno)
  | err (e : Errno)
deriving DecidableEq, Repr

/-- What `send` binds of its argument, `buf.c_str()` and `buf.size()`. The
field `content` is not bound: it records what the string held at the call. -/
structure SentString where
  data : Nat
  len : Nat
  content : List Byte
deriving DecidableEq, Repr

/-- The functors a loop is given for a connection. -/
inductive Functor where
  /-- Bound to the bare `this`. -/
  | sendInLoop (buf : SentString)
  /-- Bound to the bare `this`. -/
  | shutdownInLoop
  /-- `bind(writeCompleteCallback_, shared_from_this())`. -/
  | writeCompleteCallback
  /-- `bind(&TcpConnection::writeCompleteCallback_, shared_from_this())`. -/
  | writeCompleteMember
  /-- `bind(highWaterMarkCallback_, shared_from_this(), len)`. -/
  | highWaterMarkCallback (len : Nat)
  | connectEstablished
  | connectDestroyed
  | removeConnectionInLoop
deriving DecidableEq, Repr

/-- What a connection does to its surroundings. -/
inductive Effect where
  | setState (s : StateE)
  | write (offered : List Byte) (w : WriteResult)
  | shutdownWrite
  | received (chunk : List Byte)
  | consumed (bytes : List Byte)
  | soError (e : Errno)
  /-- `connectionCallback_`, with the value `connected()` has in it. -/
  | connectionCallback (connected : Bool)
  | messageCallback
  | closeCallback
  | queueInLoop (f : Functor)
  | removeChannel
deriving DecidableEq, Repr

/-- The DOWN notification. -/
abbrev Effect.down : Effect := .connectionCallback false

/-- The calls user code makes on a connection from one of its callbacks. -/
inductive UserCall where
  | send (data : List Byte) (w : WriteResult)
  | shutdown
  | retrieve (len : Nat)
  | retrieveAll
  | retrieveAllAsString
deriving DecidableEq, Repr

structure TcpConnection where
  state : StateE
  channel : Channel
  inputBuffer : Buffer
  outputBuffer : Buffer
  /-- `writeCompleteCallback_` is set. -/
  writeCompleteCallback : Bool
  /-- `highWaterMarkCallback_` is set. -/
  highWaterMarkCallback : Bool
  highWaterMark : Nat
deriving DecidableEq, Repr

namespace TcpConnection

/-- The constructor, with the callbacks `newConnection` installs. -/
def new (self fd : Nat) (writeComplete highWater : Bool) (highWaterMark : Nat) :
    TcpConnection where
  state := .kConnecting
  channel := Channel.new self fd
  inputBuffer := Buffer.new initialSize
  outputBuffer := Buffer.new initialSize
  writeCompleteCallback := writeComplete
  highWaterMarkCallback := highWater
  highWaterMark := highWaterMark

def connected (t : TcpConnection) : Bool := t.state == .kConnected

end TcpConnection

/-- The count `write` returns. -/
def WriteResult.count (w : WriteResult) (offered : Nat) : Nat :=
  match w with
  | .ok n => min n offered
  | .err _ => 0

/-- The return value of `write` after its conversion to `int`. -/
def WriteResult.toInt (w : WriteResult) (offered : Nat) : Int :=
  match w with
  | .ok n => (BitVec.ofNat 32 (min n offered)).toInt
  | .err _ => -1

/-- The errors after which `sendInLoop` drops the data. -/
def WriteResult.isFault (w : WriteResult) : Bool :=
  w == .err .epipe || w == .err .econnreset

def Effect.accepted : Effect → List Byte
  | .write offered w => offered.take (w.count offered.length)
  | _ => []

def Effect.receivedChunk : Effect → List Byte
  | .received chunk => chunk
  | _ => []

def Effect.consumedBytes : Effect → List Byte
  | .consumed bytes => bytes
  | _ => []

/-- A connection, the poller of its loop, and the trace so far. -/
structure Conn where
  tcp : TcpConnection
  poller : EPollPoller
  trace : List Effect

namespace Conn

/-! ## The channel of the connection -/

def emit (c : Conn) (e : Effect) : Conn := { c with trace := c.trace ++ [e] }

/-- `EventLoop::queueInLoop` from the loop thread. -/
def queueInLoop (c : Conn) (f : Functor) : Conn := c.emit (.queueInLoop f)

def isWriting (c : Conn) : Bool := c.tcp.channel.isWriting

def setEvents (c : Conn) (events : EventMask) : Conn :=
  { c with
    poller := (c.poller.setEvents c.tcp.channel events).1
    tcp := { c.tcp with channel := (c.poller.setEvents c.tcp.channel events).2 } }

def enableReading (c : Conn) : Conn := c.setEvents (c.tcp.channel.events ||| Channel.readEvent)

def enableWriting (c : Conn) : Conn := c.setEvents (c.tcp.channel.events ||| Channel.writeEvent)

def disableWriting (c : Conn) : Conn :=
  c.setEvents (c.tcp.channel.events &&& ~~~Channel.writeEvent)

def disableAll (c : Conn) : Conn := c.setEvents Channel.noneEvent

/-- `channel_->remove()`. -/
def removeChannel (c : Conn) : Conn :=
  { c with
    poller := (c.poller.removeChannel c.tcp.channel).1
    tcp := { c.tcp with channel := (c.poller.removeChannel c.tcp.channel).2 }
    trace := c.trace ++ [.removeChannel] }

def setState (c : Conn) (s : StateE) : Conn :=
  { c with tcp := { c.tcp with state := s }, trace := c.trace ++ [.setState s] }

/-! ## Sending -/

/-- `sendInLoop` writes to the socket itself only while nothing is buffered. -/
def writesDirectly (c : Conn) : Bool :=
  !c.isWriting && c.tcp.outputBuffer.readableBytes == 0

/-- `nwrote` after the direct write, 0 without one. -/
def nwrote (c : Conn) (data : List Byte) (w : WriteResult) : Nat :=
  if c.writesDirectly then w.count data.length else 0

def faultError (c : Conn) (w : WriteResult) : Bool := c.writesDirectly && w.isFault

/-- The direct write of `sendInLoop`; when it takes everything the
write-complete functor is queued. -/
def directWrite (c : Conn) (data : List Byte) (w : WriteResult) : Conn :=
  match w with
  | .ok _ =>
    if data.length - w.count data.length = 0 ∧ c.tcp.writeCompleteCallback then
      (c.emit (.write data w)).queueInLoop .writeCompleteMember
    else
      c.emit (.write data w)
  -- `nwrote` is 0, whatever the error
  | .err _ => c.emit (.write data w)

def tryDirectWrite (c : Conn) (data : List Byte) (w : WriteResult) : Conn :=
  if c.writesDirectly then c.directWrite data w else c

/-- The high-water functor, when appending `n` bytes crosses the mark. -/
def checkHighWater (c : Conn) (n : Nat) : Conn :=
  if c.tcp.outputBuffer.readableBytes + n ≥ c.tcp.highWaterMark ∧
      c.tcp.outputBuffer.readableBytes < c.tcp.highWaterMark ∧ c.tcp.highWaterMarkCallback then
    c.queueInLoop (.highWaterMarkCallback (c.tcp.outputBuffer.readableBytes + n))
  else c

def setOutputBuffer (c : Conn) (b : Buffer) : Conn :=
  { c with tcp := { c.tcp with outputBuffer := b } }

def ensureWriting (c : Conn) : Conn :=
  if !c.isWriting then c.enableWriting else c

/-- Keep what the socket did not take: high-water check, append, and interest
in `EPOLLOUT`. -/
def bufferOutput (c : Conn) (rest : List Byte) : Conn :=
  ((c.checkHighWater rest.length).setOutputBuffer (c.tcp.outputBuffer.append rest)).ensureWriting

/-- Something remains to be buffered: `!faultError && remaining > 0`. -/
def leavesRest (c : Conn) (data : List Byte) (w : WriteResult) : Bool :=
  !c.faultError w && decide (0 < data.length - c.nwrote data w)

/-- `sendInLoop(data, len)`. In state `KDisconnected` the code logs "give up
writing" and goes on, so the state has no influence. -/
def sendInLoop (c : Conn) (data : List Byte) (w : WriteResult) : Conn :=
  if c.leavesRest data w then
    (c.tryDirectWrite data w).bufferOutput (data.drop (c.nwrote data w))
  else c.tryDirectWrite data w

/-- `send` called in the loop thread. -/
def send (c : Conn) (data : List Byte) (w : WriteResult) : Conn :=
  if c.tcp.state = .kConnected then c.sendInLoop data w else c

def shutdownInLoop (c : Conn) : Conn :=
  if !c.isWriting then c.emit .shutdownWrite else c

/-- `shutdown` called in the loop thread. -/
def shutdown (c : Conn) : Conn :=
  if c.tcp.state = .kConnected then
    (c.setState .kDisconnecting).queueInLoop .shutdownInLoop
  else c

/-! ## User code -/

def setInputBuffer (c : Conn) (b : Buffer) : Conn :=
  { c with tcp := { c.tcp with inputBuffer := b } }

def userCall (c : Conn) : UserCall → Conn
  | .send data w => c.send data w
  | .shutdown => c.shutdown
  | .retrieve len =>
    (c.setInputBuffer (c.tcp.inputBuffer.retrieve len)).emit
      (.consumed (c.tcp.inputBuffer.readable.take len))
  | .retrieveAll =>
    (c.setInputBuffer c.tcp.inputBuffer.retrieveAll).emit (.consumed c.tcp.inputBuffer.readable)
  | .retrieveAllAsString =>
    (c.setInputBuffer c.tcp.inputBuffer.retrieveAllAsString.2).emit
      (.consumed c.tcp.inputBuffer.retrieveAllAsString.1)

/-- The calls of one callback, in order. -/
def userCalls (c : Conn) (calls : List UserCall) : Conn := calls.foldl userCall c

def connectionCallback (c : Conn) (calls : List UserCall) : Conn :=
  (c.emit (.connectionCallback c.tcp.connected)).userCalls calls

def messageCallback (c : Conn) (calls : List UserCall) : Conn :=
  (c.emit .messageCallback).userCalls calls

/-! ## Handlers -/

def handleClose (c : Conn) (onConnection : List UserCall) : Conn :=
  (((c.setState .kDisconnected).disableAll).connectionCallback onConnection).emit .closeCallback

/-- `err`: the error `getsockopt` failed with, or the one it reports. -/
def handleError (c : Conn) (opt : SockOptResult) (onConnection : List UserCall) : Conn :=
  match opt with
  | .err e => (c.emit (.soError e)).handleClose onConnection
  | .ok e => (c.emit (.soError e)).handleClose onConnection

/-- `readFd` on the input buffer; `readv` delivers at most what it is offered. -/
def readInput (c : Conn) (chunk : List Byte) : Conn :=
  (c.setInputBuffer (c.tcp.inputBuffer.readFd
    (chunk.take c.tcp.inputBuffer.readFdCapacity))).emit
      (.received (chunk.take c.tcp.inputBuffer.readFdCapacity))

/-- The answers a handler gets: those of the system calls, and the calls made
from the callbacks. -/
structure Answers where
  readv : ReadResult
  write : WriteResult
  sockOpt : SockOptResult
  onMessage : List UserCall
  onConnection : List UserCall
deriving DecidableEq, Repr

def handleRead (c : Conn) (a : Answers) : Conn :=
  match a.readv with
  | .ok chunk =>
    -- `n > 0`, or the peer has closed
    if 0 < (chunk.take c.tcp.inputBuffer.readFdCapacity).length then
      (c.readInput chunk).messageCallback a.onMessage
    else
      (c.readInput chunk).handleClose a.onConnection
  -- any error but end of file, `EAGAIN` too
  | .err _ => c.handleError a.sockOpt a.onConnection

def queueWriteComplete (c : Conn) : Conn :=
  if c.tcp.writeCompleteCallback then c.queueInLoop .writeCompleteCallback else c

def shutdownIfDisconnecting (c : Conn) : Conn :=
  if c.tcp.state = .kDisconnecting then c.shutdownInLoop else c

/-- `handleWrite` after the output buffer became empty. -/
def afterDrain (c : Conn) : Conn :=
  c.disableWriting.queueWriteComplete.shutdownIfDisconnecting

def retrieveOutput (c : Conn) (n : Nat) : Conn :=
  c.setOutputBuffer (c.tcp.outputBuffer.retrieve n)

/-- `handleWrite` after a positive count `n`. -/
def afterWrite (c : Conn) (n : Nat) : Conn :=
  if (c.retrieveOutput n).tcp.outputBuffer.readableBytes = 0 then (c.retrieveOutput n).afterDrain
  else c.retrieveOutput n

/-- The bytes `writeFd` passes to `write`. -/
def offered (c : Conn) : List Byte := c.tcp.outputBuffer.writeFdOffered

/-- The value of `n` in `handleWrite`. -/
def writeCount (c : Conn) (w : WriteResult) : Int := w.toInt c.offered.length

def handleWrite (c : Conn) (w : WriteResult) : Conn :=
  if c.isWriting then
    if 0 < c.writeCount w then
      (c.emit (.write c.offered w)).afterWrite (c.writeCount w).toNat
    -- an error is only logged, and the handler stays registered
    else c.emit (.write c.offered w)
  else c

/-! ## Event dispatch -/

/-- The callbacks of a channel. -/
inductive Part where
  | close
  | error
  | read
  | write
deriving DecidableEq, Repr

/-- The callbacks `handleEventWithGuard` invokes for `revents_`, in order. -/
def dispatch (revents : EventMask) : List Part :=
  (if revents.has EPOLLHUP && !revents.has Channel.readEvent then [.close] else []) ++
  (if revents.has EPOLLERR then [.error] else []) ++
  (if revents.has Channel.readEvent then [.read] else []) ++
  (if revents.has EPOLLOUT then [.write] else [])

def runPart (c : Conn) (p : Part) (a : Answers) : Conn :=
  match p with
  | .close => c.handleClose a.onConnection
  | .error => c.handleError a.sockOpt a.onConnection
  | .read => c.handleRead a
  | .write => c.handleWrite a.write

def handleEventWithGuard (c : Conn) (revents : EventMask) (a : Part → Answers) : Conn :=
  (dispatch revents).foldl (fun c p => c.runPart p (a p)) c

/-! ## Establishing and destroying -/

def connectEstablished (c : Conn) (onConnection : List UserCall) : Conn :=
  ((c.setState .kConnected).enableReading).connectionCallback onConnection

/-- `connectDestroyed`, where `sawConnected` is what its test of `state_` read. -/
def connectDestroyedAfter (c : Conn) (sawConnected : Bool) (onConnection : List UserCall) : Conn :=
  if sawConnected then
    (((c.setState .kDisconnected).disableAll).connectionCallback onConnection).removeChannel
  -- `handleClose` has notified the user already
  else c.removeChannel

def connectDestroyed (c : Conn) (onConnection : List UserCall) : Conn :=
  c.connectDestroyedAfter (c.tcp.state == .kConnected) onConnection

/-- A connection right after `newConnection` built it. -/
def new (self fd : Nat) (writeComplete highWater : Bool) (highWaterMark : Nat) : Conn where
  tcp := TcpConnection.new self fd writeComplete highWater highWaterMark
  poller := EPollPoller.new
  trace := []

end Conn

end EchoServer
