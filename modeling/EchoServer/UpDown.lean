import EchoServer.WorldInv

/-!
# Every UP gets its DOWN

A connection is torn down by `connectDestroyed`, whether a close or the
destructor of the server has scheduled it. DOWN is notified by `handleClose`
and, if it finds `KConnected`, by `connectDestroyed`; a connection found
`KDisconnecting` gets no DOWN and keeps its state and its events
(`destroyRest_iff`).

What `connectDestroyed` achieves can be undone later: by a `shutdown` that
tested `state_` before and stores `KDisconnecting` after, and by a queued send
that enables writing.
-/

namespace EchoServer

open Runs Trace

namespace Conn

/-- The first branch of `connectDestroyed` does all that is asked of it. -/
theorem connectDestroyedAfter_true (c : Conn) (us : List UserCall) :
    .down ∈ (c.connectDestroyedAfter true us).trace ∧
    (c.connectDestroyedAfter true us).tcp.state = .kDisconnected ∧
    (c.connectDestroyedAfter true us).tcp.channel.events = Channel.noneEvent := by
  have hdown := notifyDown_onlyConsumes c us
  refine ⟨?_, hdown.state, ?_⟩
  · have hmem : Effect.down ∈
        (((c.setState .kDisconnected).disableAll).connectionCallback us).trace :=
      hdown.trace.mem_of_mem (by simp)
    exact List.mem_append_left _ hmem
  · have hevents :
        (((c.setState .kDisconnected).disableAll).connectionCallback us).tcp.channel.events =
          Channel.noneEvent := by
      rw [hdown.channel]
      exact setEvents_events _ _
    simpa [connectDestroyedAfter, removeChannel, EPollPoller.removeChannel_channel] using hevents

/-- A send that enables writing leaves a channel with events. -/
theorem sendInLoop_events_of_enables {c : Conn} {data : List Byte} {w : WriteResult}
    (h : c.enablesWriting data w = true) :
    (c.sendInLoop data w).tcp.channel.events ≠ Channel.noneEvent := by
  have hwriting : (c.sendInLoop data w).isWriting = true := by
    simp only [enablesWriting, Bool.and_eq_true] at h
    unfold sendInLoop
    rw [if_pos h.1]
    exact bufferOutput_isWriting _ _
  intro hnone
  rw [isWriting_of_noneEvent hnone] at hwriting
  cases hwriting

end Conn

namespace World

/-- Once the channel is removed, an UP has got its DOWN, the state is
`KDisconnected`, and no events are enabled. -/
def TornDown (w : World) : Prop :=
  w.Removed → .connectionCallback true ∈ w.conn.trace →
    .down ∈ w.conn.trace ∧ w.conn.tcp.state = .kDisconnected ∧
      w.conn.tcp.channel.events = Channel.noneEvent

/-- The condition on one step: `connectDestroyed` read `KConnected`, or finds
the connection `KDisconnected` without events; once the channel is removed, no
late `shutdown` stores and no queued send enables writing. -/
def TearsDown (w : World) : Label → Prop
  | .destroyRest _ => w.destroying = some false →
      w.conn.tcp.state = .kDisconnected ∧ w.conn.tcp.channel.events = Channel.noneEvent
  | .shutdownStore tid => w.threads tid = .shutdownChecked → ¬ w.Removed
  | .loop (.functor a) => ∀ buf, w.RunsSend buf a (.loop (.functor a)) → w.Removed →
      w.conn.enablesWriting (w.window buf.data buf.len) a.write = false
  | _ => True

/-- With `Inv`: a removed channel without events is `New`. -/
structure TeardownInv (w : World) : Prop where
  inv : w.Inv
  index : w.Removed → w.conn.tcp.channel.events = Channel.noneEvent →
    w.conn.tcp.channel.index = .new

theorem TornDown.of_removed {w : World} (hP : w.TornDown) (h : w.Inv) (hremoved : w.Removed) :
    .down ∈ w.conn.trace ∧ w.conn.tcp.state = .kDisconnected ∧
      w.conn.tcp.channel.events = Channel.noneEvent :=
  hP hremoved h.sound.up

theorem TeardownInv.new {w : World} (h : w.TeardownInv) (hP : w.TornDown)
    (hremoved : w.Removed) : w.conn.tcp.channel.index = .new :=
  h.index hremoved (hP.of_removed h.inv hremoved).2.2

/-- The invariant survives every step from a state that is torn down properly. -/
theorem TeardownInv.step {w : World} (h : w.TeardownInv) (hP : w.TornDown) (e : Label) :
    (w.step e).TeardownInv := by
  refine ⟨h.inv.step e, ?_⟩
  intro hremoved' hnone'
  by_cases hremoved : w.Removed
  · have hnew := h.new hP hremoved
    by_cases hsend : ∀ buf a, ¬ w.RunsSend buf a e
    · rcases removed_step h.inv hremoved hnew hsend with
        hread | ⟨tid, _, _, heq⟩ | heq | ⟨saw, us, _, _, heq⟩
      · rw [hread.channel]
        exact hnew
      · rw [heq]
        exact hnew
      · rw [heq, Conn.shutdownInLoop_tcp]
        exact hnew
      · rw [heq]
        exact connectDestroyedAfter_index _ saw us
    · push Not at hsend
      obtain ⟨buf, a, hrun⟩ := hsend
      rw [step_of_runsSend hrun] at hnone' ⊢
      rw [Conn.sendInLoop_index_iff hnew]
      by_contra henables
      exact Conn.sendInLoop_events_of_enables (by simpa using henables) hnone'
  · obtain ⟨saw, us, _, _, heq⟩ := removes_cases h.inv hremoved hremoved'
    rw [heq]
    exact connectDestroyedAfter_index _ saw us

/-- The end of `connectDestroyed`. -/
theorem destroyRest_iff {w : World} (h : w.TeardownInv) (hP : w.TornDown) (us : List UserCall) :
    (w.step (.destroyRest us)).TornDown ↔ w.TearsDown (.destroyRest us) := by
  cases hdest : w.destroying with
  | none =>
    have hstutter : w.step (.destroyRest us) = w := by simp [step, hdest]
    rw [hstutter]
    simp [TearsDown, hdest, hP]
  | some saw =>
    have hconn : (w.step (.destroyRest us)).conn = w.conn.connectDestroyedAfter saw us := by
      simp [step, hdest]
    unfold TornDown Removed
    rw [hconn]
    cases saw with
    | true =>
      simp only [TearsDown, hdest, Option.some.injEq, Bool.true_eq_false, false_implies, iff_true]
      intro _ _
      exact Conn.connectDestroyedAfter_true w.conn us
    | false =>
      -- only `channel_->remove()`: state and events are those found
      have hevents : w.conn.removeChannel.tcp.channel.events = w.conn.tcp.channel.events := by
        simp [Conn.removeChannel, EPollPoller.removeChannel_channel]
      simp only [TearsDown, hdest, forall_const, Conn.connectDestroyedAfter]
      constructor
      · intro hdone
        have hdone' := hdone (by simp [Conn.removeChannel])
          (List.mem_append_left _ h.inv.sound.up)
        exact ⟨hdone'.2.1, hevents ▸ hdone'.2.2⟩
      · rintro ⟨hstate, hnone⟩ _ _
        have hmem := h.inv.sound.down (h.inv.sound.disconnected hstate)
        exact ⟨List.mem_append_left _ hmem, hstate, hevents ▸ hnone⟩

/-- A late store of `KDisconnecting`. -/
theorem shutdownStore_iff {w : World} (h : w.TeardownInv) (hP : w.TornDown) (tid : Nat) :
    (w.step (.shutdownStore tid)).TornDown ↔ w.TearsDown (.shutdownStore tid) := by
  by_cases hpc : w.threads tid = .shutdownChecked
  · have hconn : (w.step (.shutdownStore tid)).conn = w.conn.setState .kDisconnecting := by
      simp [step, hpc]
    unfold TornDown Removed
    rw [hconn]
    simp only [TearsDown, hpc, forall_const, Removed]
    constructor
    · intro hdone hremoved
      have hstate := (hdone (List.mem_append_left _ hremoved)
        (List.mem_append_left _ h.inv.sound.up)).2.1
      simp at hstate
    · intro hkept hremoved
      exact absurd (by simpa using hremoved) hkept
  · have hstutter : w.step (.shutdownStore tid) = w := by simp [step, hpc]
    rw [hstutter]
    simp [TearsDown, hpc, hP]

/-- A queued send. -/
theorem runsSend_iff {w : World} (h : w.TeardownInv) (hP : w.TornDown) {buf : SentString}
    {a : Conn.Answers} {e : Label} (hrun : w.RunsSend buf a e) :
    (w.step e).TornDown ↔
      (w.Removed → w.conn.enablesWriting (w.window buf.data buf.len) a.write = false) := by
  have hmoves := Conn.sendInLoop_moves w.conn (w.window buf.data buf.len) a.write
  have hremoved : (w.step e).Removed ↔ w.Removed := by
    unfold Removed
    rw [step_of_runsSend hrun]
    exact hmoves.removed
  unfold TornDown
  rw [hremoved, step_of_runsSend hrun]
  constructor
  · intro hdone hr
    by_contra henables
    have hnone := (hdone hr (hmoves.mem_trace h.inv.sound.up)).2.2
    exact Conn.sendInLoop_events_of_enables (by simpa using henables) hnone
  · intro hquiet hr _
    obtain ⟨hdown, hstate, hnone⟩ := hP.of_removed h.inv hr
    refine ⟨hmoves.mem_trace hdown, ?_, ?_⟩
    · rw [Conn.sendInLoop_state]
      exact hstate
    · rw [Conn.sendInLoop_channel_of_quiet (hquiet hr)]
      exact hnone

/-- Every other step keeps a connection torn down. -/
theorem tornDown_step {w : World} (h : w.TeardownInv) (hP : w.TornDown) {e : Label}
    (hsend : ∀ buf a, ¬ w.RunsSend buf a e) (hrest : ∀ us, e ≠ .destroyRest us)
    (hstore : ∀ tid, e ≠ .shutdownStore tid) : (w.step e).TornDown := by
  intro hremoved' _
  by_cases hremoved : w.Removed
  · obtain ⟨hdown, hstate, hnone⟩ := hP.of_removed h.inv hremoved
    rcases removed_step h.inv hremoved (h.new hP hremoved) hsend with
      hread | ⟨tid, he, _, _⟩ | heq | ⟨saw, us, _, he, _⟩
    · exact ⟨hread.trace.mem_of_mem hdown, hread.state.trans hstate, hread.channel ▸ hnone⟩
    · exact absurd he (hstore tid)
    · rw [heq, Conn.shutdownInLoop_tcp]
      exact ⟨(Conn.shutdownInLoop_moves _).mem_trace hdown, hstate, hnone⟩
    · exact absurd he (hrest us)
  · obtain ⟨saw, us, _, he, _⟩ := removes_cases h.inv hremoved hremoved'
    exact absurd he (hrest us)

theorem tornDown_iff {w : World} (h : w.TeardownInv) (hP : w.TornDown) (e : Label) :
    (w.step e).TornDown ↔ w.TearsDown e := by
  have hother : (∀ buf a, ¬ w.RunsSend buf a e) → (∀ us, e ≠ .destroyRest us) →
      (∀ tid, e ≠ .shutdownStore tid) → w.TearsDown e → ((w.step e).TornDown ↔ w.TearsDown e) := by
    intro hsend hrest hstore hC
    exact iff_of_true (tornDown_step h hP hsend hrest hstore) hC
  have hlabel : ∀ {e : Label}, (∀ a, e ≠ .loop (.functor a)) → ∀ buf a, ¬ w.RunsSend buf a e := by
    intro e hne buf a hrun
    exact hne a hrun.2.2.2
  cases e with
  | destroyRest us => exact destroyRest_iff h hP us
  | shutdownStore tid => exact shutdownStore_iff h hP tid
  | loop l =>
    cases l with
    | functor a =>
      by_cases hsend : ∀ buf a', ¬ w.RunsSend buf a' (.loop (.functor a))
      · refine hother hsend (by simp) (by simp) ?_
        intro buf hrun
        exact absurd hrun (hsend buf a)
      · push Not at hsend
        obtain ⟨buf, a', hrun⟩ := hsend
        have ha : a = a' := by simpa using hrun.2.2.2
        subst ha
        rw [runsSend_iff h hP hrun]
        constructor
        · intro hquiet buf' hrun'
          have hbuf : buf' = buf := by
            have hhead := hrun.2.2.1
            rw [hrun'.2.2.1] at hhead
            simpa using hhead
          rw [hbuf]
          exact hquiet
        · intro hC
          exact hC buf hrun
    | _ => exact hother (hlabel (by simp)) (by simp) (by simp) trivial
  | _ => exact hother (hlabel (by simp)) (by simp) (by simp) trivial

end World

open World

/-- Every UP gets its DOWN exactly in the runs whose connection is torn down
from `KConnected` or after a `handleClose`, and left alone afterwards. -/
theorem up_gets_down_iff (self fd : Nat) (wc hw : Bool) (mark : Nat)
    (onConnection : List UserCall) (mem : Nat → Byte) (es : List Label) :
    Always step (established self fd wc hw mark onConnection mem) TornDown es ↔
      EachStep step (established self fd wc hw mark onConnection mem) TearsDown es := by
  have hkept := upConn_removeChannel self fd wc hw mark onConnection
  refine always_iff_eachStep TeardownInv ?_ (fun w e h hP => h.step hP e) ?_
    (fun w e h hP => tornDown_iff h hP e) es
  · exact ⟨established_inv self fd wc hw mark onConnection mem,
      fun hremoved => absurd hremoved hkept⟩
  · exact fun hremoved => absurd hremoved hkept

/-- The user shuts the connection down, and the server is destroyed before the
peer has closed. -/
def destroyedWhileShutDown : List Label :=
  [.loop (.userCall .shutdown),
    .loop .endFunctors, .loop (.poll none), .loop .swap, .loop (.functor noAnswers),
    .queueDestroyed,
    .loop .endFunctors, .loop (.poll none), .loop .swap, .loop (.functor noAnswers),
    .destroyRest []]

/-- The user is never told DOWN. -/
theorem down_never_notified :
    ¬ Always step (established 1 5 false false 64 [] fun _ => 0) TornDown
      destroyedWhileShutDown := by
  intro h
  have hlast := h _ (List.prefix_refl _)
  have hremoved :
      (run step (established 1 5 false false 64 [] fun _ => 0) destroyedWhileShutDown).Removed := by
    unfold Removed
    decide +kernel
  have hdown := (hlast hremoved (by decide +kernel)).1
  revert hdown
  decide +kernel

end EchoServer
