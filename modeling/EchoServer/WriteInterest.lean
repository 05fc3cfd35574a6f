import EchoServer.GracefulClose

/-!
# Interest in EPOLLOUT

From `connectEstablished` until `handleClose` or `connectDestroyed`, the channel
asks for `EPOLLOUT` exactly while output is pending (`Poised`). So `sendInLoop`,
which looks at both before it writes to the socket itself, looks at one thing.

* `writing_iff_pending`: every step of every run.
-/

namespace EchoServer

open Runs World

namespace Conn

/-- The channel is writing exactly while output is pending, and the direct write
is attempted exactly while none is. -/
structure InterestExact (c : Conn) : Prop where
  writing : c.isWriting = true ↔ 0 < c.tcp.outputBuffer.readableBytes
  direct : c.writesDirectly = true ↔ c.tcp.outputBuffer.readableBytes = 0

theorem Poised.interestExact {c : Conn} (h : c.Poised) : c.InterestExact := by
  have hwriting : c.isWriting = true ↔ 0 < c.tcp.outputBuffer.readableBytes := by
    rw [h.writing, Ne, Buffer.readable_eq_nil_iff, Nat.pos_iff_ne_zero]
  refine ⟨hwriting, ?_⟩
  constructor
  · intro hdirect
    simp only [writesDirectly, Bool.and_eq_true, beq_iff_eq] at hdirect
    exact hdirect.2
  · intro hempty
    -- nothing is pending, so the channel is not writing either
    have hnot : c.isWriting = false := by
      by_contra hon
      have hpending := hwriting.mp (by simpa using hon)
      omega
    simp [writesDirectly, hnot, hempty]

end Conn

/-- Until the connection is closed or destroyed, `EPOLLOUT` is asked for exactly while
output is pending, whatever `write` answers. -/
theorem writing_iff_pending (self fd : Nat) (wc hw : Bool) (mark : Nat)
    (onConnection : List UserCall) (mem : Nat → Byte) (es : List Label) :
    Always step (established self fd wc hw mark onConnection mem)
      (fun w => w.conn.Open → w.conn.InterestExact) es := by
  intro pre _ hopen
  have hinv : (run step (established self fd wc hw mark onConnection mem) pre).OpenInv :=
    run_invariant OpenInv (fun _ e h => h.step e)
      (established_openInv self fd wc hw mark onConnection mem) pre
  exact (hinv.poised hopen).interestExact

end EchoServer
