import EchoServer.AsyncLogging
import EchoServer.Lib.Fifo

/-!
# The order of the log

The log is a queue of bytes: `append` puts the bytes of its record in,
`LogFile::append` takes those of a buffer out, and every other step, the swap
and the recycling of the buffers among them, leaves all bytes where they are.

* `StandsFor`, `simulates`: the queue of a state, and its operations;
* `records_in_order`: what has been written, what is in `buffers_` and what is
  in `currentBuffer_` are together the records.
-/

namespace EchoServer

open Runs

namespace AsyncLogging

/-- The bytes of the records, one after the other. -/
def bytesOf (records : List Record) : List Byte := records.flatMap Record.bytes

theorem bytesOf_concat (records : List Record) (r : Record) :
    bytesOf (records ++ [r]) = bytesOf records ++ r.bytes := by
  simp [bytesOf]

/-- The queue a state stands for: the records enter it, `LogFile::append` takes
from it. -/
structure StandsFor (s : AsyncLogging) (q : Fifo.Queue Byte) : Prop where
  inv : s.Inv
  owned : s.Owned
  entered : q.entered = bytesOf s.records
  left : q.left = s.written
  waiting : q.waiting = s.unwritten

theorem new_standsFor : new.StandsFor Fifo.Queue.empty where
  inv := new_inv
  owned := new_owned
  entered := rfl
  left := rfl
  waiting := rfl

/-- A step that leaves all bytes where they are. -/
theorem StandsFor.skip {s s' : AsyncLogging} {q : Fifo.Queue Byte} (h : s.StandsFor q)
    (hinv : s'.Inv) (howned : s'.Owned) (hrecords : s'.records = s.records)
    (hwritten : s'.written = s.written) (hunwritten : s'.unwritten = s.unwritten) :
    ∃ op, s'.StandsFor (q.step op) := by
  refine ⟨.skip, hinv, howned, ?_, ?_, ?_⟩
  · rw [hrecords]
    exact h.entered
  · rw [hwritten]
    exact h.left
  · rw [hunwritten]
    exact h.waiting

theorem unwritten_put {s : AsyncLogging} (h : s.Inv) (r : Record) :
    (s.put r.bytes).unwritten = s.unwritten ++ r.bytes := by
  rw [unwritten, h.contents_put, (s.put_apart r.bytes).thread, unwritten, List.append_assoc]

theorem simulates : Fifo.Simulates step StandsFor := by
  intro s e q h
  have hinv := h.inv.step e
  have howned := h.owned.step e
  rcases step_cases s e with hstutter | hstep
  · rw [hstutter]
    exact ⟨.skip, h⟩
  generalize s.step e = s' at hinv howned hstep
  cases hstep with
  -- the record goes to the end of the queue
  | append tid r hmutex hcaller howner =>
    refine ⟨.enqueue r.bytes, hinv, howned, ?_, ?_, ?_⟩
    · show q.entered ++ r.bytes = bytesOf (s.records ++ [r])
      rw [bytesOf_concat, h.entered]
    · show q.left = (s.put r.bytes).written
      rw [(s.put_apart r.bytes).written]
      exact h.left
    · show q.waiting ++ r.bytes = (s.put r.bytes).unwritten
      rw [unwritten_put h.inv, h.waiting]
  -- these move no byte
  | appendReturn | start | stop | dtor | dtorStop | dtorEnd =>
    exact h.skip hinv howned rfl rfl rfl
  | startThread howner =>
    have hthread := h.owned.unstarted (Or.inr howner)
    exact h.skip hinv howned rfl rfl (by simp [unwritten, hthread, ThreadFunc.rest])
  | enter hthread | testRunning hthread | testStopped hthread | lockEmpty hthread
  | lockFull hthread | wake hthread | writeEnd hthread | flush hthread | finish hthread =>
    exact h.skip hinv howned rfl rfl (by simp [unwritten, hthread, ThreadFunc.rest, initLocals])
  -- from `buffers_` to `buffersToWrite`, in the same order
  | swap hthread =>
    exact h.skip hinv howned s.swap_apart.records s.swap_apart.written
      (unwritten_swap h.inv hthread)
  -- the first buffer leaves the queue
  | write buffer rest hthread =>
    have hwaiting : q.waiting =
        buffer.content ++ (contents rest ++ contents (s.buffers ++ [s.currentBuffer])) := by
      rw [h.waiting]
      simp [unwritten, hthread, ThreadFunc.rest, content]
    refine ⟨.dequeue buffer.content.length, hinv, howned, h.entered, ?_, ?_⟩
    · show q.left ++ q.waiting.take _ = s.written ++ buffer.content
      rw [hwaiting, List.take_left, h.left]
    · show q.waiting.drop _ = _
      rw [hwaiting, List.drop_left]
      rfl
  | writeNull rest hthread => exact h.skip hinv howned rfl rfl rfl
  -- what is dropped here has been written
  | recycle hthread =>
    have hlocals := h.inv.locals
    rw [hthread] at hlocals
    rcases recycle_spec hlocals h.inv.newEmpty1 h.inv.newEmpty2 with ⟨p, q, hrecycle, _⟩
    refine h.skip hinv howned s.recycle_apart.records s.recycle_apart.written ?_
    simp [hrecycle, unwritten, hthread, ThreadFunc.rest]

/-- No byte is lost, doubled or moved. -/
theorem run_conserved (es : List Label) :
    (run step new es).written ++ (run step new es).unwritten =
      bytesOf (run step new es).records := by
  rcases simulates.run new_standsFor es with ⟨ops, hstands⟩
  rw [← hstands.left, ← hstands.waiting, ← hstands.entered]
  exact (Fifo.Queue.empty.run ops).conserved

/-- While `mutex_` is free, what has been written, `buffers_` and
`currentBuffer_` hold the records, whole and in the order of their appends. -/
theorem records_in_order (es : List Label) :
    Always step new (fun s => s.thread.holdsMutex = false →
      s.written ++ contents s.buffers ++ content s.currentBuffer = bytesOf s.records) es := by
  intro pre _ hfree
  have hconserved := run_conserved pre
  rw [unwritten, ThreadFunc.rest_of_free hfree] at hconserved
  simpa using hconserved

end AsyncLogging

end EchoServer
