import EchoServer.AsyncLogging

/-!
# Destruction of the log

The destructor clears `running_`, and does not wait for the thread: `~Thread`
detaches it.

* `UsesObject`: the steps of `threadFunc` that touch the members;
* `LeftLoop`: the destructor ends when the thread has left its loop, or was
  never started;
* `thread_outlived`: then the thread touches nothing afterwards, and after any
  other end of the destructor it can.
-/

namespace EchoServer

open Runs

namespace AsyncLogging

/-- A step of `threadFunc` that reads or writes a member: `basename_` for the
`LogFile`, `running_`, `mutex_` and `cond_`, the buffers, `mutex_` again at the
end of the iteration. -/
def UsesObject (s : AsyncLogging) : Label → Prop
  | .enter => s.thread = .entering
  | .test => s.thread = .test
  | .lock => s.thread = .locking
  | .wake => s.thread = .waiting
  | .swap => s.thread = .swapping
  | .flush => s.thread = .flushing
  | _ => False

/-- No use of the destroyed object. -/
def NoLateUse (s : AsyncLogging) (e : Label) : Prop :=
  s.owner = .gone → ¬ s.UsesObject e

/-- Not started, or past the last test of `running_`. -/
def ThreadFunc.outOfLoop : ThreadFunc → Bool
  | .notStarted => true
  | .finalFlush => true
  | .finished => true
  | _ => false

/-- The destructor ends when the thread is out of its loop. -/
def LeftLoop (s : AsyncLogging) (e : Label) : Prop :=
  e = .dtorEnd → s.owner = .dying → s.thread.outOfLoop = true

theorem UsesObject.inLoop {s : AsyncLogging} {e : Label} (h : s.UsesObject e) :
    s.thread.outOfLoop = false := by
  cases e with
  | enter | test | lock | wake | swap | flush =>
    have hthread : s.thread = _ := h
    simp [hthread, ThreadFunc.outOfLoop]
  | _ => exact h.elim

/-- Once the object is gone the thread stays out of its loop. -/
theorem gone_step {s : AsyncLogging} (h : s.owner = .gone → s.thread.outOfLoop = true) {e : Label}
    (he : s.LeftLoop e) : (s.step e).owner = .gone → (s.step e).thread.outOfLoop = true := by
  refine covers.elim (P := fun s' => s'.owner = .gone → s'.thread.outOfLoop = true) h ?_
  intro s' hstep howner
  cases hstep with
  | append tid r hmutex hcaller hgone =>
    exact absurd ((s.put_apart r.bytes).owner.symm.trans howner) hgone
  | appendReturn | stop | writeNull => exact h howner
  | start | startThread | dtorStop => simp at howner
  | dtor hlive =>
    have hnot : (if s.running = true then Owner.stopping else .dying) ≠ .gone := by
      split <;> simp
    exact absurd howner hnot
  | dtorEnd hdying => exact he rfl hdying
  | swap hthread =>
    have hout := h (s.swap_apart.owner.symm.trans howner)
    simp [hthread, ThreadFunc.outOfLoop] at hout
  | recycle hthread =>
    have hout := h (s.recycle_apart.owner.symm.trans howner)
    simp [hthread, ThreadFunc.outOfLoop] at hout
  | finish hthread => rfl
  | enter hthread | testRunning hthread | testStopped hthread | lockEmpty hthread
  | lockFull hthread | wake hthread | writeEnd hthread | write _ _ hthread | flush hthread =>
    have hout := h howner
    simp [hthread, ThreadFunc.outOfLoop] at hout

/-- From the loop over `buffersToWrite` the thread comes to unlock `mutex_`. -/
theorem write_to_unlock {s : AsyncLogging} (h : s.Inv) {rest : List BufferPtr}
    (hthread : s.thread = .writing rest) :
    ∃ es, (run step s es).owner = s.owner ∧ (run step s es).thread = .flushing := by
  induction rest generalizing s with
  | nil =>
    refine ⟨[.write, .recycle], ?_⟩
    have hapart := ({ s with thread := .recycling } : AsyncLogging).recycle_apart
    simp [step, hthread, hapart.owner]
  | cons p rest ih =>
    -- no pointer is null, so the loop goes on
    have hlocals := h.locals
    rw [hthread] at hlocals
    rcases Option.isSome_iff_exists.mp (hlocals.2 p (List.mem_cons_self ..)) with ⟨buffer, hp⟩
    have hstep : s.step .write =
        { s with written := s.written ++ buffer.content, thread := .writing rest } := by
      simp [step, hthread, hp]
    rcases ih (h.step .write) (by rw [hstep]) with ⟨es, howner, hflushing⟩
    refine ⟨.write :: es, ?_, hflushing⟩
    rw [run_cons, howner, hstep]

/-- Inside its loop the thread comes to use the object. -/
theorem comes_to_use {s : AsyncLogging} (h : s.Inv) (hin : s.thread.outOfLoop = false) :
    ∃ es e, (run step s es).owner = s.owner ∧ (run step s es).UsesObject e := by
  cases hthread : s.thread with
  | entering => exact ⟨[], .enter, rfl, hthread⟩
  | test => exact ⟨[], .test, rfl, hthread⟩
  | locking => exact ⟨[], .lock, rfl, hthread⟩
  | waiting => exact ⟨[], .wake, rfl, hthread⟩
  | swapping => exact ⟨[], .swap, rfl, hthread⟩
  | writing rest =>
    rcases write_to_unlock h hthread with ⟨es, howner, hflushing⟩
    exact ⟨es, .flush, howner, hflushing⟩
  | recycling =>
    refine ⟨[.recycle], .flush, ?_, ?_⟩
    · simp [step, hthread, s.recycle_apart.owner]
    · simp [UsesObject, step, hthread]
  | flushing => exact ⟨[], .flush, rfl, hthread⟩
  | _ => simp [hthread, ThreadFunc.outOfLoop] at hin

theorem late_end_breaks {es : List Label} {e : Label} (h : ¬ LeftLoop (run step new es) e) :
    ∃ es', ¬ EachStep step new NoLateUse (es ++ e :: es') := by
  simp only [LeftLoop, Classical.not_imp] at h
  rcases h with ⟨rfl, hdying, hin⟩
  have hinv : (run step new (es ++ [.dtorEnd])).Inv :=
    run_invariant Inv (fun _ e h => h.step e) new_inv _
  have hgone : run step new (es ++ [.dtorEnd]) = { run step new es with owner := .gone } := by
    rw [run_concat]
    simp [step, hdying]
  have hin' : (run step new (es ++ [.dtorEnd])).thread.outOfLoop = false := by
    rw [hgone]
    simpa using hin
  rcases comes_to_use hinv hin' with ⟨es', e', howner, huses⟩
  refine ⟨es' ++ [e'], fun hall => ?_⟩
  have hwhole : es ++ .dtorEnd :: (es' ++ [e']) = (es ++ [.dtorEnd] ++ es') ++ [e'] := by simp
  rw [hwhole] at hall
  have hlast := hall.last
  rw [run_append] at hlast
  refine hlast ?_ huses
  rw [howner, hgone]

/-- In every run in which the destructor ends with the thread out of its loop,
the thread never touches the destroyed object; and every run can be brought to
break this after any other end of the destructor. -/
theorem thread_outlived (es : List Label) :
    (EachStep step new LeftLoop es → EachStep step new NoLateUse es) ∧
      ∀ e, ¬ LeftLoop (run step new es) e →
        ∃ es', ¬ EachStep step new NoLateUse (es ++ e :: es') := by
  constructor
  · intro h
    have hsafe : Always step new (fun s => s.owner = .gone → s.thread.outOfLoop = true) es :=
      always_of_eachStep (by simp [new]) (fun _ _ hs he => gone_step hs he) h
    apply hsafe.eachStep
    intro s e hout howner huses
    have hin := huses.inLoop
    simp [hout howner] at hin
  · intro e h
    exact late_end_breaks h

/-- The destructor finds the thread in its wait. -/
def destroyedInWait : List Label :=
  [.start, .startThread, .enter, .test, .lock, .dtor, .dtorStop, .dtorEnd]

theorem wake_after_destruction : ¬ EachStep step new NoLateUse (destroyedInWait ++ [.wake]) := by
  intro h
  exact h.last rfl rfl

end AsyncLogging

end EchoServer
