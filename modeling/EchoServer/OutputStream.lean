import Mathlib.Algebra.Group.Nat.Defs
import EchoServer.Lib.Runs
import EchoServer.Frames

/-!
# The output stream of a connection

Runs of `send` and `handleWrite` on an established connection, with a kernel
that accepts any part of what it is offered or answers `EWOULDBLOCK`.

The stream is intact when the bytes accepted on the socket, followed by the
readable bytes of the output buffer, are the strings sent. `send` keeps it
intact on both of its paths (`sendInLoop_stream`). `writeFd` offers the kernel
the writable area of the buffer in place of the readable one, so a
`handleWrite` that gets a positive count keeps it only where the two areas
happen to agree (`handleWrite_stream_iff`).
-/

namespace EchoServer

open Runs Trace

/-! ## Runs -/

/-- The answers of `write` on a healthy socket. -/
inductive KernelAnswer where
  | accepted (n : Nat)
  | wouldBlock
deriving DecidableEq, Repr

def KernelAnswer.result : KernelAnswer → WriteResult
  | .accepted n => .ok n
  | .wouldBlock => .err .eagain

inductive OutputEvent where
  | send (data : List Byte) (k : KernelAnswer)
  | handleWrite (k : KernelAnswer)
deriving DecidableEq, Repr

def outputStep (c : Conn) : OutputEvent → Conn
  | .send data k => c.send data k.result
  | .handleWrite k => c.handleWrite k.result

def OutputEvent.sent : OutputEvent → List Byte
  | .send data _ => data
  | .handleWrite _ => []

/-- All the strings sent, in call order. -/
def sentBytes (es : List OutputEvent) : List Byte := es.flatMap OutputEvent.sent

namespace Conn

/-- The bytes the kernel has accepted on the socket. -/
def acceptedBytes (c : Conn) : List Byte := c.trace.flatMap Effect.accepted

/-- Accepted and still buffered bytes, in order. -/
def outputStream (c : Conn) : List Byte := c.acceptedBytes ++ c.tcp.outputBuffer.readable

/-- A connection after `connectEstablished`, the user not sending from the
connection callback. -/
def established (self fd : Nat) (writeComplete highWater : Bool) (highWaterMark : Nat) : Conn :=
  (Conn.new self fd writeComplete highWater highWaterMark).connectEstablished []

@[simp] theorem established_state (self fd : Nat) (wc hw : Bool) (mark : Nat) :
    (established self fd wc hw mark).tcp.state = .kConnected := rfl

@[simp] theorem established_outputBuffer (self fd : Nat) (wc hw : Bool) (mark : Nat) :
    (established self fd wc hw mark).tcp.outputBuffer = Buffer.new initialSize := rfl

@[simp] theorem established_inputBuffer (self fd : Nat) (wc hw : Bool) (mark : Nat) :
    (established self fd wc hw mark).tcp.inputBuffer = Buffer.new initialSize := rfl

@[simp] theorem established_trace (self fd : Nat) (wc hw : Bool) (mark : Nat) :
    (established self fd wc hw mark).trace =
      [.setState .kConnected, .connectionCallback true] := rfl

theorem established_outputStream (self fd : Nat) (wc hw : Bool) (mark : Nat) :
    (established self fd wc hw mark).outputStream = [] := by
  simp [outputStream, acceptedBytes, Effect.accepted]

/-! ## Sending -/

theorem isFault_result (k : KernelAnswer) : k.result.isFault = false := by
  cases k <;> rfl

theorem count_le (w : WriteResult) (n : Nat) : w.count n ≤ n := by
  cases w with
  | ok m => exact Nat.min_le_right m n
  | err e => exact Nat.zero_le n

theorem acceptedBytes_directWrite (c : Conn) (data : List Byte) (w : WriteResult) :
    (c.directWrite data w).acceptedBytes = c.acceptedBytes ++ data.take (w.count data.length) := by
  unfold directWrite
  split
  · split <;> simp [acceptedBytes, Effect.accepted]
  · simp [acceptedBytes, Effect.accepted]

theorem acceptedBytes_tryDirectWrite (c : Conn) (data : List Byte) (w : WriteResult) :
    (c.tryDirectWrite data w).acceptedBytes = c.acceptedBytes ++ data.take (c.nwrote data w) := by
  unfold tryDirectWrite nwrote
  split
  · exact acceptedBytes_directWrite c data w
  · simp

theorem acceptedBytes_bufferOutput (c : Conn) (rest : List Byte) :
    (c.bufferOutput rest).acceptedBytes = c.acceptedBytes := by
  unfold bufferOutput
  simp only [acceptedBytes, ensureWriting_trace, setOutputBuffer_trace]
  unfold checkHighWater
  split
  · simp [Effect.accepted]
  · rfl

/-- The direct path, the buffered path and a split between them all put the
whole string at the end of the stream, unless the socket failed. -/
theorem sendInLoop_stream (c : Conn) (data : List Byte) (w : WriteResult)
    (hfault : c.faultError w = false) :
    (c.sendInLoop data w).outputStream = c.outputStream ++ data := by
  have hdirect : c.writesDirectly = true → c.tcp.outputBuffer.readable = [] := by
    intro h
    simp only [writesDirectly, Bool.and_eq_true, beq_iff_eq] at h
    exact (Buffer.readable_eq_nil_iff _).mpr h.2
  -- with bytes pending nothing is written, so `nwrote` is 0
  have hcomm : data.take (c.nwrote data w) ++ c.tcp.outputBuffer.readable =
      c.tcp.outputBuffer.readable ++ data.take (c.nwrote data w) := by
    by_cases h : c.writesDirectly = true
    · simp [hdirect h]
    · simp [nwrote, h]
  unfold sendInLoop outputStream
  split
  · rw [acceptedBytes_bufferOutput, acceptedBytes_tryDirectWrite, bufferOutput_outputBuffer,
      tryDirectWrite_tcp, Buffer.readable_append]
    calc c.acceptedBytes ++ data.take (c.nwrote data w) ++
          (c.tcp.outputBuffer.readable ++ data.drop (c.nwrote data w))
        = c.acceptedBytes ++ (data.take (c.nwrote data w) ++ c.tcp.outputBuffer.readable) ++
            data.drop (c.nwrote data w) := by simp
      _ = c.acceptedBytes ++ c.tcp.outputBuffer.readable ++ data := by
          rw [hcomm]
          simp
  · rename_i hrest
    have hall : data.length ≤ c.nwrote data w := by
      simp only [leavesRest, hfault, Bool.not_false, Bool.true_and, decide_eq_true_eq] at hrest
      omega
    have htake : data.take (c.nwrote data w) = data := List.take_of_length_le hall
    rw [acceptedBytes_tryDirectWrite, tryDirectWrite_tcp, List.append_assoc, hcomm, htake,
      List.append_assoc]

/-! ## handleWrite -/

/-- The conversion of the byte count to `int`: unless it is positive and
exact, `handleWrite` retrieves a count other than the one accepted. -/
theorem toInt_pos {n : Nat} (h : 0 < (BitVec.ofNat 32 n).toInt) :
    (BitVec.ofNat 32 n).toInt.toNat = n % 2 ^ 32 := by
  rw [BitVec.toInt_eq_toNat_cond, BitVec.toNat_ofNat] at h ⊢
  split at h
  · rename_i hlt
    rw [if_pos hlt]
    exact Int.toNat_natCast _
  · omega

theorem toInt_of_lt {n : Nat} (h : n < 2 ^ 31) : (BitVec.ofNat 32 n).toInt = n := by
  rw [BitVec.toInt_eq_toNat_cond, BitVec.toNat_ofNat, if_pos (by omega)]
  omega

/-- The number of readable bytes `handleWrite` retrieves. -/
def retrieved (c : Conn) (w : WriteResult) : Nat :=
  if 0 < c.writeCount w then (c.writeCount w).toNat else 0

theorem handleWrite_readable {c : Conn} (h : c.isWriting = true) (w : WriteResult) :
    (c.handleWrite w).tcp.outputBuffer.readable =
      c.tcp.outputBuffer.readable.drop (c.retrieved w) := by
  unfold handleWrite retrieved
  rw [if_pos h]
  split
  · simp [Buffer.readable_retrieve]
  · simp

theorem handleWrite_acceptedBytes {c : Conn} (h : c.isWriting = true) (w : WriteResult) :
    (c.handleWrite w).acceptedBytes =
      c.acceptedBytes ++ c.offered.take (w.count c.offered.length) := by
  have hafter : ∀ (d : Conn) (n : Nat), (d.afterWrite n).acceptedBytes = d.acceptedBytes := by
    intro d n
    refine (afterWrite_extends d n).flatMap_eq ?_
    intro e he
    cases e with
    | write => exact he.elim
    | _ => rfl
  unfold handleWrite
  rw [if_pos h]
  split
  · rw [hafter]
    simp [acceptedBytes, Effect.accepted]
  · simp [acceptedBytes, Effect.accepted]

/-- What the kernel takes from a `handleWrite` is what the output buffer gives
up: nothing, or a count that fits in an `int`, covers no more than the readable
bytes, and at whose length the writable area repeats the readable one. -/
def WritesReadable (c : Conn) (w : WriteResult) : Prop :=
  w.count c.offered.length = 0 ∨
    w.count c.offered.length < 2 ^ 31 ∧
    w.count c.offered.length ≤ c.tcp.outputBuffer.readableBytes ∧
    c.offered.take (w.count c.offered.length) =
      c.tcp.outputBuffer.readable.take (w.count c.offered.length)

theorem writeCount_ok (c : Conn) (n : Nat) :
    c.writeCount (.ok n) =
      (BitVec.ofNat 32 ((WriteResult.ok n).count c.offered.length)).toInt := rfl

theorem retrieved_eq (c : Conn) (w : WriteResult) :
    c.retrieved w =
      if 0 < (BitVec.ofNat 32 (w.count c.offered.length)).toInt then
        w.count c.offered.length % 2 ^ 32
      else 0 := by
  unfold retrieved
  cases w with
  | ok n =>
    rw [writeCount_ok]
    by_cases hpos : 0 < (BitVec.ofNat 32 ((WriteResult.ok n).count c.offered.length)).toInt
    · rw [if_pos hpos, if_pos hpos]
      exact toInt_pos hpos
    · rw [if_neg hpos, if_neg hpos]
  | err e => simp [writeCount, WriteResult.toInt, WriteResult.count]

/-- A `handleWrite` keeps an intact stream intact exactly when it writes
readable bytes. -/
theorem handleWrite_stream_iff {c : Conn} (hw : c.isWriting = true) (w : WriteResult) :
    (c.handleWrite w).outputStream = c.outputStream ↔ c.WritesReadable w := by
  have hcount := count_le w c.offered.length
  have hlen : (c.offered.take (w.count c.offered.length)).length =
      w.count c.offered.length := by
    rw [List.length_take, Nat.min_eq_left hcount]
  have hr := Buffer.length_readable c.tcp.outputBuffer
  have hret := retrieved_eq c w
  unfold outputStream WritesReadable
  rw [handleWrite_acceptedBytes hw, handleWrite_readable hw, List.append_assoc,
    List.append_cancel_left_eq]
  generalize w.count c.offered.length = n at *
  generalize c.retrieved w = m at *
  generalize c.tcp.outputBuffer.readable = readable at *
  constructor
  · -- compare the lengths, then the bytes the kernel took
    intro h
    have hsum := congrArg List.length h
    rw [List.length_append, hlen, List.length_drop] at hsum
    have htake : c.offered.take n = readable.take n := by
      have htake := congrArg (List.take n) h
      rwa [List.take_append_of_le_length (Nat.le_of_eq hlen.symm), List.take_take,
        Nat.min_self] at htake
    split at hret
    · rename_i hpos
      have hmod := toInt_pos hpos
      have hlt : n % 2 ^ 32 < 2 ^ 31 := by
        rw [BitVec.toInt_eq_toNat_cond, BitVec.toNat_ofNat] at hpos
        split at hpos <;> omega
      have hle := Nat.mod_le n (2 ^ 32)
      rcases Nat.lt_or_ge readable.length m with hover | hcover
      · -- more retrieved than readable: the kernel got all readable bytes
        omega
      · exact Or.inr ⟨by omega, by omega, htake⟩
    · exact Or.inl (by omega)
  · -- what is written is retrieved
    rintro (hzero | ⟨hlt, hle, htake⟩)
    · subst hzero
      simp at hret
      simp [hret]
    · rcases Nat.eq_zero_or_pos n with hzero | hpos
      · subst hzero
        simp at hret
        simp [hret]
      · rw [toInt_of_lt hlt, if_pos (by omega), Nat.mod_eq_of_lt (by omega)] at hret
        rw [htake, hret, List.take_append_drop]

end Conn

/-! ## Whole runs -/

open Conn

/-- The condition on one step of a run: a `handleWrite` on a writing channel
writes readable bytes. -/
def OutputEvent.Faithful (c : Conn) : OutputEvent → Prop
  | .send _ _ => True
  | .handleWrite k => c.isWriting = true → c.WritesReadable k.result

theorem outputStep_state {c : Conn} (h : c.tcp.state = .kConnected) (e : OutputEvent) :
    (outputStep c e).tcp.state = .kConnected := by
  cases e with
  | send data k => simp [outputStep, send, h]
  | handleWrite k => simp [outputStep, h]

theorem run_outputStep_state {c : Conn} (h : c.tcp.state = .kConnected) (es : List OutputEvent) :
    (run outputStep c es).tcp.state = .kConnected := by
  refine run_invariant (fun d : Conn => d.tcp.state = .kConnected) ?_ h es
  intro d e hd
  exact outputStep_state hd e

theorem outputStep_stream_iff {c : Conn} (h : c.tcp.state = .kConnected) (e : OutputEvent) :
    (outputStep c e).outputStream = c.outputStream ++ e.sent ↔ e.Faithful c := by
  cases e with
  | send data k =>
    have hfault : c.faultError k.result = false := by
      simp [faultError, isFault_result]
    simp only [outputStep, send, if_pos h, OutputEvent.sent, OutputEvent.Faithful, iff_true]
    exact sendInLoop_stream c data k.result hfault
  | handleWrite k =>
    simp only [outputStep, OutputEvent.sent, OutputEvent.Faithful, List.append_nil]
    by_cases hw : c.isWriting = true
    · simp only [hw, forall_const]
      exact handleWrite_stream_iff hw k.result
    · rw [handleWrite_of_not_writing (by simpa using hw)]
      simp [hw]

section
variable (self fd : Nat) (wc hw : Bool) (mark : Nat)

/-- Output stream integrity: at every moment of a run the accepted bytes and
the buffered ones are the strings sent so far, exactly when every
`handleWrite` of the run writes readable bytes. -/
theorem output_stream_intact_iff (es : List OutputEvent) :
    Throughout (fun pre =>
      (run outputStep (established self fd wc hw mark) pre).outputStream = sentBytes pre) es ↔
    EachStep outputStep (established self fd wc hw mark) (fun c e => e.Faithful c) es := by
  refine throughout_iff_atEachStep ?_ ?_ es
  · exact established_outputStream self fd wc hw mark
  intro pre e hpre
  have hstate : (run outputStep (established self fd wc hw mark) pre).tcp.state = .kConnected :=
    run_outputStep_state (established_state self fd wc hw mark) pre
  have hsent : sentBytes (pre ++ [e]) = sentBytes pre ++ e.sent := by
    simp [sentBytes]
  rw [run_concat, hsent, ← hpre]
  exact outputStep_stream_iff hstate e

end

/-- One byte that the socket refuses at first: the `EPOLLOUT` handler then
writes a byte of the unused area in its place. -/
theorem output_stream_corrupted :
    ¬ ∀ es : List OutputEvent, Throughout (fun pre =>
      (run outputStep (established 1 5 false false 64) pre).outputStream = sentBytes pre) es := by
  intro h
  have hlast := h [.send [1] .wouldBlock, .handleWrite (.accepted 1)] _ (List.prefix_refl _)
  revert hlast
  decide +kernel

end EchoServer
