import EchoServer.Echo

/-!
# The echo service under its loop

The callbacks of `Echo.lean` as the loop runs them: a poll reports a registered
channel with events it has asked for, or an error or a hang-up, and
`handleEvent` runs the callbacks `dispatch` selects. A closed connection asks
for nothing, so no data reaches it any more, and a socket that takes what it is
offered is served by `sendInLoop` alone.

* `echo_at_once`: such a socket has been sent every byte received each time the
  loop comes back to `epoll_wait`.
-/

namespace EchoServer

open Runs Trace

namespace Conn

/-! ## The polls of the loop -/

/-- `epoll_wait` can report `revents`: the channel is registered, and only
`EPOLLERR` and `EPOLLHUP` come without being asked for. -/
def reportable (c : Conn) (revents : EventMask) : Bool :=
  c.poller.registered c.tcp.channel &&
    (revents &&& ~~~(c.tcp.channel.events ||| EPOLLERR ||| EPOLLHUP) == 0#32)

/-- The events of one poll, and the answers to the callbacks it leads to. -/
structure PollResult where
  revents : EventMask
  answers : Part → SysAnswers

def PollResult.callbacks (e : PollResult) : List Callback :=
  (dispatch e.revents).map fun p => ⟨p, e.answers p⟩

/-- One iteration of the loop, as far as this connection is concerned. -/
def pollStep (c : Conn) (e : PollResult) : Conn :=
  if c.reportable e.revents then run echoStep c e.callbacks else c

/-- The kernel treats the connection well: data arrives in pieces smaller than
a fresh buffer and not along with an error, and the socket takes all of it. -/
def PollResult.Smooth (e : PollResult) : Prop :=
  match (e.answers .read).readv with
  | .ok chunk => e.revents.has Channel.readEvent = true → chunk ≠ [] →
      e.revents.has EPOLLERR = false ∧ chunk.length < initialSize ∧
        (e.answers .read).write.count chunk.length = chunk.length
  | .err _ => True

/-- Everything received has been sent back, nothing is pending, and the channel
asks for events only while the connection is up. -/
structure Serving (c : Conn) : Prop where
  input : c.InputBounded
  echoed : c.acceptedBytes = c.receivedBytes
  empty : c.tcp.outputBuffer.readable = []
  notWriting : c.isWriting = false
  up : c.tcp.state = .kConnected ∨ c.tcp.channel.events = Channel.noneEvent

theorem Serving.closed {c c' : Conn} (h : c.Serving) (hidle : EchoIdle c c')
    (hevents : c'.tcp.channel.events = Channel.noneEvent) : c'.Serving where
  input := h.input.of_inputBuffer hidle.inputBuffer
  echoed := by
    rw [hidle.acceptedBytes, hidle.receivedBytes]
    exact h.echoed
  empty := by
    rw [hidle.outputBuffer]
    exact h.empty
  notWriting := isWriting_of_noneEvent hevents
  up := Or.inr hevents

theorem handleClose_events (c : Conn) (us : List UserCall) :
    (c.handleClose us).tcp.channel.events = Channel.noneEvent := by
  rw [handleClose_channel]
  exact setEvents_events c Channel.noneEvent

theorem Serving.handleClose {c : Conn} (h : c.Serving) : (c.handleClose onConnection).Serving :=
  h.closed (handleClose_echoIdle c) (handleClose_events c onConnection)

theorem Serving.handleError {c : Conn} (h : c.Serving) (opt : SockOptResult) :
    (c.handleError opt onConnection).Serving := by
  obtain ⟨e, he⟩ := handleError_eq c opt onConnection
  refine h.closed (handleError_echoIdle c opt) ?_
  rw [he]
  exact handleClose_events _ _

theorem Serving.handleWrite {c : Conn} (h : c.Serving) (w : WriteResult) :
    (c.handleWrite w).Serving := by
  rw [handleWrite_of_not_writing h.notWriting]
  exact h

/-- Reading without data closes the connection. -/
theorem Serving.handleRead_close {c : Conn} (h : c.Serving) {k : SysAnswers}
    (hnone : ∀ chunk, k.readv = .ok chunk → c.delivered chunk = []) :
    (c.handleRead (c.echoAnswers k)).Serving := by
  have hinput : (c.handleRead (c.echoAnswers k)).InputBounded := h.input.echoStep ⟨.read, k⟩
  rcases Conn.handleRead_close hnone with ⟨chunk, heq, hnil⟩ | heq
  · obtain ⟨_, hreceived⟩ := readInput_close_echoIdle hnil
    have hidle := handleClose_echoIdle (c.readInput chunk)
    have hevents := handleClose_events (c.readInput chunk) onConnection
    rw [heq] at hinput ⊢
    refine ⟨hinput, ?_, ?_, isWriting_of_noneEvent hevents, Or.inr hevents⟩
    · rw [hidle.acceptedBytes, hidle.receivedBytes, hreceived, ← h.echoed]
      simp [acceptedBytes, Effect.accepted]
    · rw [hidle.outputBuffer]
      exact h.empty
  · rw [heq]
    exact h.handleError k.sockOpt

/-- A socket that takes the whole string gets it from `sendInLoop`'s own write,
and nothing else changes. -/
theorem sendInLoop_of_taken {c : Conn} (hdirect : c.writesDirectly = true) {data : List Byte}
    {w : WriteResult} (htaken : w.count data.length = data.length) :
    (c.sendInLoop data w).tcp = c.tcp ∧
      (c.sendInLoop data w).acceptedBytes = c.acceptedBytes ++ data := by
  have hnwrote : c.nwrote data w = data.length := by
    simp [nwrote, hdirect, htaken]
  have hleaves : c.leavesRest data w = false := by
    simp [leavesRest, hnwrote]
  unfold sendInLoop
  rw [if_neg (by simp [hleaves])]
  constructor
  · exact tryDirectWrite_tcp c data w
  · rw [acceptedBytes_tryDirectWrite, hnwrote, List.take_length]

/-- Data that fits and is taken is sent back in the same callback. -/
theorem Serving.handleRead_data {c : Conn} (h : c.Serving) (hup : c.tcp.state = .kConnected)
    {k : SysAnswers} {chunk : List Byte} (hread : k.readv = .ok chunk) (hdata : chunk ≠ [])
    (hshort : chunk.length < initialSize)
    (htaken : k.write.count chunk.length = chunk.length) :
    (c.handleRead (c.echoAnswers k)).Serving := by
  have hroom : chunk.length < c.tcp.inputBuffer.writableBytes := by
    have hlower := h.input.lower
    simp only [Buffer.writableBytes, h.input.drained.writer]
    omega
  have hdelivered : c.delivered chunk = chunk := by
    refine List.take_of_length_le ?_
    unfold Buffer.readFdCapacity
    split
    · omega
    · omega
  have hmessage : c.message chunk = chunk := by
    have hfits : c.FitsWritable chunk := by
      left
      change (c.delivered chunk).length < _
      rw [hdelivered]
      exact hroom
    rw [(message_eq h.input.drained chunk).mpr hfits, hdelivered]
  have hdata' : c.delivered chunk ≠ [] := by
    rw [hdelivered]
    exact hdata
  have hstep : c.handleRead (c.echoAnswers k) =
      (((c.readInput chunk).emit .messageCallback).userCall .retrieveAllAsString).sendInLoop chunk
        k.write := by
    rw [Conn.handleRead_data hread hdata', hmessage]
    exact if_pos hup
  have hempty : c.tcp.outputBuffer.readableBytes = 0 :=
    (Buffer.readable_eq_nil_iff _).mp h.empty
  have hdirect : (((c.readInput chunk).emit .messageCallback).userCall
      .retrieveAllAsString).writesDirectly = true := by
    have hquiet : c.writesDirectly = true := by
      simp [writesDirectly, h.notWriting, hempty]
    exact hquiet
  obtain ⟨htcp, haccepted⟩ := sendInLoop_of_taken hdirect htaken
  obtain ⟨hreceived, _⟩ := handleRead_data_streams hread hdata'
  refine ⟨h.input.echoStep ⟨.read, k⟩, ?_, ?_, ?_, ?_⟩
  · rw [hreceived, hdelivered, hstep, haccepted, ← h.echoed]
    simp [acceptedBytes, userCall, setInputBuffer, Effect.accepted]
  · rw [hstep, htcp]
    exact h.empty
  · unfold isWriting
    rw [hstep, htcp]
    exact h.notWriting
  · left
    rw [hstep, htcp]
    exact hup

/-- A callback that brings no data. -/
theorem Serving.echoStep {c : Conn} (h : c.Serving) {e : Callback}
    (hnone : e.part = .read → ∀ chunk, e.answers.readv = .ok chunk → chunk = []) :
    (c.echoStep e).Serving := by
  rcases e with ⟨p, k⟩
  cases p with
  | close => exact h.handleClose
  | error => exact h.handleError k.sockOpt
  | write => exact h.handleWrite k.write
  | read =>
    refine h.handleRead_close ?_
    intro chunk hread
    rw [hnone rfl chunk hread]
    exact List.take_nil

/-- A channel that asks for nothing is not reported as readable. -/
theorem reportable_read {c : Conn} {revents : EventMask} (h : c.reportable revents = true)
    (hread : revents.has Channel.readEvent = true) : c.tcp.channel.events ≠ Channel.noneEvent := by
  intro hevents
  simp only [reportable, Bool.and_eq_true, beq_iff_eq, hevents] at h
  have hbits : ~~~(Channel.noneEvent ||| EPOLLERR ||| EPOLLHUP) &&& Channel.readEvent =
      Channel.readEvent := by decide
  have hnone : revents &&& Channel.readEvent = 0#32 := by
    rw [← hbits, ← BitVec.and_assoc, h.2, BitVec.zero_and]
  simp [EventMask.has, hnone] at hread

/-- The callbacks of a readable channel without an error: `handleRead`, and
`handleWrite` if asked for. -/
theorem dispatch_read {revents : EventMask} (hread : revents.has Channel.readEvent = true)
    (herr : revents.has EPOLLERR = false) :
    dispatch revents = .read :: if revents.has EPOLLOUT then [.write] else [] := by
  simp [dispatch, hread, herr]

theorem mem_dispatch_read {revents : EventMask} (h : Part.read ∈ dispatch revents) :
    revents.has Channel.readEvent = true := by
  by_contra hread
  unfold dispatch at h
  rw [if_neg hread] at h
  revert h
  split <;> split <;> split <;> simp

theorem Serving.run {c : Conn} (h : c.Serving) {es : List Callback}
    (hnone : ∀ e ∈ es, e.part = .read → ∀ chunk, e.answers.readv = .ok chunk → chunk = []) :
    (Runs.run Conn.echoStep c es).Serving := by
  induction es generalizing c with
  | nil => exact h
  | cons e es ih =>
    refine ih (h.echoStep (hnone e (List.mem_cons_self ..))) ?_
    intro e' he'
    exact hnone e' (List.mem_cons_of_mem e he')

/-- One iteration of the loop. Data comes alone or with `EPOLLOUT`, and only
while the connection is up; in every other case there is nothing to echo. -/
theorem Serving.pollStep {c : Conn} (h : c.Serving) {e : PollResult} (hsmooth : e.Smooth) :
    (c.pollStep e).Serving := by
  unfold Conn.pollStep
  split
  swap
  · exact h
  rename_i hreport
  by_cases hdata : e.revents.has Channel.readEvent = true ∧
      ∃ chunk, (e.answers .read).readv = .ok chunk ∧ chunk ≠ []
  · rcases hdata with ⟨hread, chunk, hreadv, hdata⟩
    have hup : c.tcp.state = .kConnected :=
      h.up.resolve_right (reportable_read hreport hread)
    unfold PollResult.Smooth at hsmooth
    rw [hreadv] at hsmooth
    obtain ⟨herr, hshort, htaken⟩ := hsmooth hread hdata
    have hfirst := h.handleRead_data hup hreadv hdata hshort htaken
    unfold PollResult.callbacks
    rw [dispatch_read hread herr, List.map_cons, run_cons]
    refine Serving.run hfirst ?_
    intro e' he' hpart
    split at he'
    · simp at he'
      simp [he'] at hpart
    · simp at he'
  · refine h.run ?_
    intro e' he' hpart chunk hreadv
    simp only [PollResult.callbacks, List.mem_map] at he'
    obtain ⟨p, hp, rfl⟩ := he'
    obtain rfl : p = .read := hpart
    by_contra hne
    exact hdata ⟨mem_dispatch_read hp, chunk, hreadv, hne⟩

end Conn

/-! ## Whole runs -/

open Conn

section
variable (self fd : Nat) (wc hw : Bool) (mark : Nat)

theorem established_serving : (established self fd wc hw mark).Serving where
  input := established_inputBounded self fd wc hw mark
  echoed := by simp [acceptedBytes, receivedBytes, Effect.accepted, Effect.receivedChunk]
  empty := by simp
  notWriting := by
    have hquiet : (established self fd wc hw mark).isWriting =
        ((Conn.new self fd wc hw mark).setState .kConnected).isWriting :=
      enableReading_isWriting _
    rw [hquiet]
    exact isWriting_of_noneEvent rfl
  up := Or.inl rfl

/-- Over any number of polls of a smooth connection, whatever its events are:
each time the loop comes back to `epoll_wait` every byte received so far has
been accepted on the socket in return, and `EPOLLOUT` is not asked for. -/
theorem echo_at_once (es : List PollResult) (hsmooth : ∀ e ∈ es, e.Smooth) :
    Always pollStep (established self fd wc hw mark)
      (fun c => c.acceptedBytes = c.receivedBytes ∧ c.tcp.outputBuffer.readableBytes = 0 ∧
        c.isWriting = false) es := by
  have hserving : Always pollStep (established self fd wc hw mark) Serving es := by
    refine always_of_eachStep (established_serving self fd wc hw mark)
      (fun c e h (he : e.Smooth) => h.pollStep he) ?_
    intro pre e hpre
    exact hsmooth e (hpre.subset (by simp))
  refine hserving.mono ?_
  intro c h
  exact ⟨h.echoed, (Buffer.readable_eq_nil_iff _).mp h.empty, h.notWriting⟩

end

/-- Two bytes arrive, and the socket takes two. -/
def greeting : PollResult where
  revents := EPOLLIN
  answers := fun _ => ⟨.ok [104, 105], .ok 2, .ok (.other 0)⟩

theorem greeting_smooth : greeting.Smooth := by
  intro _ _
  decide

theorem greeting_echoed :
    Always pollStep (established 1 5 false false 64)
      (fun c => c.acceptedBytes = c.receivedBytes ∧ c.tcp.outputBuffer.readableBytes = 0 ∧
        c.isWriting = false) [greeting] ∧
    (Runs.run pollStep (established 1 5 false false 64) [greeting]).receivedBytes = [104, 105] := by
  refine ⟨echo_at_once 1 5 false false 64 [greeting] ?_, by decide +kernel⟩
  intro e he
  rw [List.mem_singleton.mp he]
  exact greeting_smooth

end EchoServer
