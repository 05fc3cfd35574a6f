import EchoServer.WorldInv

/-!
# A closed connection is inert

`send` tests `state_` in one thread and its functor runs later in another. In
between the connection may have been closed and its channel removed.
`sendInLoop` logs "give up writing" when it finds `KDisconnected`, but goes on
to write, to buffer and to enable writing.

A run is inert when no queued send changes a closed connection and no removed
channel is in the poller again. A queued send is harmless only if it has
nothing to do (`sendInLoop_eq_self_iff`, `sendInLoop_index_iff`); no other step
puts a removed channel back (`unregistered_of_not_send`).
-/

namespace EchoServer

open Runs

namespace Conn

/-- `sendInLoop` does nothing at all only with output pending and nothing to
send. -/
theorem sendInLoop_eq_self_iff (c : Conn) (data : List Byte) (w : WriteResult) :
    c.sendInLoop data w = c ↔ data = [] ∧ c.writesDirectly = false := by
  constructor
  · intro h
    have hpending : c.writesDirectly = false := by
      by_contra hdirect
      obtain ⟨es, hes⟩ := sendInLoop_trace_of_direct (by simpa using hdirect) data w
      have hlen := congrArg List.length hes
      rw [h, List.length_append, List.length_cons] at hlen
      omega
    have hread := sendInLoop_readable_of_pending hpending data w
    rw [h] at hread
    exact ⟨List.self_eq_append_right.mp hread, hpending⟩
  · rintro ⟨rfl, hpending⟩
    simp [sendInLoop, leavesRest, tryDirectWrite, hpending]

/-- The channel is neither in `channels_` nor in the interest set. -/
def Unregistered (c : Conn) : Prop :=
  c.poller.hasChannel c.tcp.channel = false ∧ c.poller.registered c.tcp.channel = false

theorem unregistered_iff {c : Conn} (h : c.Coherent) :
    c.Unregistered ↔ c.tcp.channel.index = .new := by
  have hreg := EPollPoller.registered_iff h
  unfold Unregistered EPollPoller.hasChannel
  rw [h.1, ← Bool.not_eq_true (c.poller.registered _), hreg]
  cases c.tcp.channel.index <;> simp

end Conn

namespace World

/-- `state_` has been set to `KDisconnected`. -/
def Closed (w : World) : Prop := .setState .kDisconnected ∈ w.conn.trace

/-- A queued send that runs on a closed connection does nothing to it. -/
def InertStep (w : World) (e : Label) : Prop :=
  ∀ buf a, w.RunsSend buf a e → w.Closed → (w.step e).conn = w.conn

/-- A removed channel is in the poller no more. -/
def StaysUnregistered (w : World) : Prop := w.Removed → w.conn.Unregistered

/-- The condition on one step: a queued send that runs on a closed connection
is empty and finds output pending; one that runs after the removal finds
nothing to buffer, or the channel writing. -/
def SendsNothing (w : World) (e : Label) : Prop :=
  ∀ buf a, w.RunsSend buf a e →
    (w.Closed → buf.len = 0 ∧ w.conn.writesDirectly = false) ∧
    (w.Removed → w.conn.enablesWriting (w.window buf.data buf.len) a.write = false)

theorem window_eq_nil_iff (w : World) (data len : Nat) : w.window data len = [] ↔ len = 0 := by
  simp [window]

/-- Only a queued send puts a removed channel back. -/
theorem unregistered_of_not_send {w : World} (h : w.Inv) (hP : w.StaysUnregistered) {e : Label}
    (hsend : ∀ buf a, ¬ w.RunsSend buf a e) : (w.step e).StaysUnregistered := by
  have h' := h.step e
  intro hremoved'
  rw [Conn.unregistered_iff h'.sound.coherent]
  by_cases hremoved : w.Removed
  · have hnew := (Conn.unregistered_iff h.sound.coherent).mp (hP hremoved)
    rcases removed_step h hremoved hnew hsend with
      hread | ⟨tid, _, _, heq⟩ | heq | ⟨saw, us, _, _, heq⟩
    · rw [hread.channel]
      exact hnew
    · rw [heq]
      exact hnew
    · rw [heq, Conn.shutdownInLoop_tcp]
      exact hnew
    · rw [heq]
      exact connectDestroyedAfter_index _ saw us
  · obtain ⟨saw, us, _, _, heq⟩ := removes_cases h hremoved hremoved'
    rw [heq]
    exact connectDestroyedAfter_index _ saw us

theorem inert_iff {w : World} (h : w.Inv) (hP : w.StaysUnregistered) (e : Label) :
    w.InertStep e ∧ (w.step e).StaysUnregistered ↔ w.SendsNothing e := by
  by_cases hsend : ∀ buf a, ¬ w.RunsSend buf a e
  · constructor
    · intro _ buf a hrun
      exact absurd hrun (hsend buf a)
    · intro _
      refine ⟨fun buf a hrun => absurd hrun (hsend buf a), ?_⟩
      exact unregistered_of_not_send h hP hsend
  · push Not at hsend
    obtain ⟨buf, a, hrun⟩ := hsend
    -- the functor at the head of the batch and the answers are determined
    have huniq : ∀ buf' a', w.RunsSend buf' a' e → buf' = buf ∧ a' = a := by
      rintro buf' a' ⟨_, _, hhead', he'⟩
      obtain ⟨_, _, hhead, he⟩ := hrun
      rw [hhead] at hhead'
      rw [he] at he'
      exact ⟨by simpa using hhead'.symm, by simpa using he'.symm⟩
    have hconn := step_of_runsSend hrun
    have hinert : w.InertStep e ↔
        (w.Closed → buf.len = 0 ∧ w.conn.writesDirectly = false) := by
      have hself := Conn.sendInLoop_eq_self_iff w.conn (w.window buf.data buf.len) a.write
      rw [window_eq_nil_iff, ← hconn] at hself
      constructor
      · intro hD hclosed
        exact hself.mp (hD buf a hrun hclosed)
      · intro hC buf' a' _ hclosed
        exact hself.mpr (hC hclosed)
    have hstays : (w.step e).StaysUnregistered ↔
        (w.Removed → w.conn.enablesWriting (w.window buf.data buf.len) a.write = false) := by
      have hremoved : (w.step e).Removed ↔ w.Removed := by
        unfold Removed
        rw [hconn]
        exact (Conn.sendInLoop_moves _ _ _).removed
      unfold StaysUnregistered
      rw [hremoved, Conn.unregistered_iff (h.step e).sound.coherent, hconn]
      constructor
      · intro hS hr
        have hnew := (Conn.unregistered_iff h.sound.coherent).mp (hP hr)
        exact (Conn.sendInLoop_index_iff hnew _ _).mp (hS hr)
      · intro hC hr
        have hnew := (Conn.unregistered_iff h.sound.coherent).mp (hP hr)
        exact (Conn.sendInLoop_index_iff hnew _ _).mpr (hC hr)
    rw [hinert, hstays]
    constructor
    · rintro ⟨hclosed, hr⟩ buf' a' hrun'
      obtain ⟨rfl, rfl⟩ := huniq buf' a' hrun'
      exact ⟨hclosed, hr⟩
    · intro hC
      exact hC buf a hrun

end World

open World

/-- A closed connection is inert, and its removed channel out of the poller,
exactly in the runs whose late queued sends have nothing to do. -/
theorem closed_connection_inert_iff (self fd : Nat) (wc hw : Bool) (mark : Nat)
    (onConnection : List UserCall) (mem : Nat → Byte) (es : List Label) :
    EachStep step (established self fd wc hw mark onConnection mem) InertStep es ∧
      Always step (established self fd wc hw mark onConnection mem) StaysUnregistered es ↔
    EachStep step (established self fd wc hw mark onConnection mem) SendsNothing es := by
  refine eachStep_always_iff Inv (established_inv self fd wc hw mark onConnection mem)
    (fun w e h _ => h.step e) ?_ (fun w e h hP => inert_iff h hP e) es
  intro hremoved
  exact absurd hremoved (upConn_removeChannel self fd wc hw mark onConnection)

/-- `readv` finds the end of the file, `write` a full socket. -/
def peerClosed : Conn.Answers := { noAnswers with readv := .ok [] }

/-- A thread calls `send`; before its functor the loop handles the peer's close
and runs `connectDestroyed`. -/
def closeBeforeSend : List Label :=
  [.send 0 100 1,
    .loop .endFunctors, .loop (.poll (some EPOLLIN)), .loop .handle, .loop (.part peerClosed),
    .loop .handled,
    .queueDestroyed, .sendQueue 0,
    .loop .swap, .loop (.functor peerClosed), .destroyRest [], .loop (.functor peerClosed)]

/-- The late functor puts the removed channel back into the poller. -/
theorem removed_channel_registered_again :
    ¬ Always step (established 1 5 false false 64 [] fun _ => 7) StaysUnregistered
      closeBeforeSend := by
  intro h
  have hlast := h _ (List.prefix_refl _)
  have hremoved :
      (run step (established 1 5 false false 64 [] fun _ => 7) closeBeforeSend).Removed := by
    unfold Removed
    decide +kernel
  have hgone := (hlast hremoved).1
  revert hgone
  decide +kernel

end EchoServer
