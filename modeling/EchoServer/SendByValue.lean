import EchoServer.WorldInv

/-!
# Cross-thread send

`send` binds `buf.c_str()` and `buf.size()` into the functor it queues, not the
bytes. By the time the loop runs the functor, the caller may have changed,
reused or freed its string.

A run carries its messages by value when every `sendInLoop` functor has the
effect of `sendInLoop` on what the string held at the call
(`World.CarriesContent`). Different bytes have different effects
(`sendInLoop_injective`), so this holds exactly when the memory behind the
pointer still holds that content whenever a functor runs.
-/

namespace EchoServer

open Runs

namespace Conn

/-- Different strings written or buffered leave different connections. -/
theorem sendInLoop_injective {c : Conn} {data data' : List Byte} {w : WriteResult}
    (h : c.sendInLoop data w = c.sendInLoop data' w) : data = data' := by
  by_cases hdirect : c.writesDirectly = true
  · obtain ⟨es, hes⟩ := sendInLoop_trace_of_direct hdirect data w
    obtain ⟨fs, hfs⟩ := sendInLoop_trace_of_direct hdirect data' w
    have htrace : c.trace ++ .write data w :: es = c.trace ++ .write data' w :: fs := by
      rw [← hes, ← hfs, h]
    have hhead := List.head_eq_of_cons_eq (List.append_cancel_left htrace)
    exact (Effect.write.inj hhead).1
  · have hpending : c.writesDirectly = false := by simpa using hdirect
    have hread : c.tcp.outputBuffer.readable ++ data = c.tcp.outputBuffer.readable ++ data' := by
      rw [← sendInLoop_readable_of_pending hpending data w,
        ← sendInLoop_readable_of_pending hpending data' w, h]
    exact List.append_cancel_left hread

end Conn

namespace World

/-- A queued send has the effect of `sendInLoop` on the content of the call. -/
def CarriesContent (w : World) (e : Label) : Prop :=
  ∀ buf a, w.RunsSend buf a e → (w.step e).conn = w.conn.sendInLoop buf.content a.write

/-- The memory a queued send reads still holds the content of the call. -/
def ReadsContent (w : World) (e : Label) : Prop :=
  ∀ buf a, w.RunsSend buf a e → w.window buf.data buf.len = buf.content

theorem carriesContent_iff (w : World) (e : Label) : w.CarriesContent e ↔ w.ReadsContent e := by
  constructor
  · intro h buf a hrun
    have hconn := h buf a hrun
    rw [step_of_runsSend hrun] at hconn
    exact Conn.sendInLoop_injective hconn
  · intro h buf a hrun
    rw [step_of_runsSend hrun, h buf a hrun]

end World

open World

/-- Cross-thread sends carry their messages by value exactly in the runs in
which no string has changed under a functor by the time it runs. -/
theorem sends_by_value_iff (self fd : Nat) (wc hw : Bool) (mark : Nat)
    (onConnection : List UserCall) (mem : Nat → Byte) (es : List Label) :
    EachStep step (established self fd wc hw mark onConnection mem) CarriesContent es ↔
      EachStep step (established self fd wc hw mark onConnection mem) ReadsContent es := by
  exact eachStep_congr carriesContent_iff es

/-- A run of the loop up to its next batch of functors. -/
def nextBatch : List Label :=
  [.loop .endFunctors, .loop (.poll none), .loop .swap]

/-- A thread sends one byte and then clears its string: the loop writes the
cleared byte. -/
theorem message_changed_after_send :
    ¬ EachStep step (established 1 5 false false 64 [] fun _ => 7) CarriesContent
      ([.send 0 100 1, .sendQueue 0, .store 100 0] ++ nextBatch ++
        [.loop (.functor healthySocket)]) := by
  intro h
  have hstep := h _ _ (List.prefix_refl _) ⟨100, 1, [7]⟩ healthySocket ⟨rfl, rfl, rfl, rfl⟩
  have htrace := congrArg Conn.trace hstep
  revert htrace
  decide +kernel

end EchoServer
