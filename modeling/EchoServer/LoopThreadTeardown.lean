import EchoServer.EventLoopThread

/-!
# Teardown of a loop thread

The destructor uses the `EventLoop` of the other thread for as long as it is in
`quit`, and `threadFunc` destroys that loop as soon as `loop()` has returned,
which the store in `quit` already allows. With `loop_` cleared the destructor
does not join at all; with `loop_` cleared between its two reads it calls `quit`
through a null pointer.

* `Handshake`: no step of `quit` or `wakeup` on a dead loop or without one, no
  return of the destructor before the end of `threadFunc`;
* `Orderly`: the moments at which `loop_` may be cleared and the loop destroyed,
  the destructor entered, and the loop used by others;
* `teardown_handshake`: orderly steps are enough, and after any other step the
  handshake can break.
-/

namespace EchoServer

open Runs

variable {F : Type u}

namespace EventLoopThread

/-- The destructor has the address of the loop and is not through with it. -/
def Owner.inQuit : Owner → Bool
  | .calling => true
  | .stored => true
  | .waking => true
  | _ => false

/-- A step of `quit` or `wakeup`, by the destructor or by another thread. -/
def Touches (s : EventLoopThread F) : Label F → Prop
  | .storeQuit => s.owner = .calling
  | .checkThread => s.owner = .stored
  | .wakeup => s.owner = .waking
  | .other (.quit tid) => s.life ≠ .unborn ∧ s.loop.threads tid = .idle
  | .other (.wakeup tid) => s.life ≠ .unborn ∧ s.loop.threads tid ≠ .idle
  | _ => False

/-- The destructor returns. -/
def DtorReturns (s : EventLoopThread F) (e : Label F) : Prop :=
  e = .dtorEnd ∧ (s.owner = .joined ∨ s.owner = .skipping)

/-- `loop_->quit()`: the pointer is read for the call. -/
def CallsQuit (s : EventLoopThread F) (e : Label F) : Prop :=
  e = .loadLoop ∧ s.owner = .tested

/-- No use of a destroyed loop, no call through a null pointer, and no return ahead of
`threadFunc`. -/
structure Handshake (s : EventLoopThread F) (e : Label F) : Prop where
  touch : s.Touches e → s.life ≠ .dead
  called : s.CallsQuit e → s.loopPtr = true
  finished : s.DtorReturns e → s.thread = .notStarted ∨ s.thread = .finished

/-- `loop_` is cleared when the destructor is not between its test and its call, the
loop is destroyed when nobody is in a call on it, the destructor finds `loop_` null
only where `threadFunc` is over or was never started, and nobody begins a call on a
dead loop. -/
def Orderly (s : EventLoopThread F) : Label F → Prop
  | .clear => s.thread = .clearing → s.owner ≠ .tested
  | .destroy => s.thread = .destroying →
      s.owner.inQuit = false ∧ ∀ tid, s.loop.threads tid = .idle
  | .dtor => s.owner = .created ∨ s.owner = .started → s.loopPtr = false →
      s.thread = .notStarted ∨ s.thread = .finished
  | .other (.push tid _) => s.loop.threads tid = .idle → s.life ≠ .dead
  | .other (.quit tid) => s.loop.threads tid = .idle → s.life ≠ .dead
  | _ => True

/-! ## Orderly runs -/

structure Safe (s : EventLoopThread F) : Prop where
  inv : s.Inv
  unused : s.life = .dead → s.owner.inQuit = false ∧ ∀ tid, s.loop.threads tid = .idle
  skipping : s.owner = .skipping → s.thread = .notStarted ∨ s.thread = .finished
  joined : s.owner = .joined → s.thread = .finished
  tested : s.owner = .tested → s.loopPtr = true

theorem new_safe : (new : EventLoopThread F).Safe :=
  ⟨new_inv, by simp [new], by simp [new], by simp [new], by simp [new]⟩

theorem Inv.alive {s : EventLoopThread F} (h : s.Inv) (hptr : s.loopPtr = true) :
    s.life ≠ .dead := by
  intro hdead
  have hfinished := ThreadFunc.life_eq_dead.mp (h.life ▸ hdead)
  have hpublished := h.ptr ▸ hptr
  simp [hfinished, ThreadFunc.published] at hpublished

theorem Inv.not_dead {s : EventLoopThread F} (h : s.Inv) (hthread : s.thread ≠ .finished) :
    s.life ≠ .dead := by
  intro hdead
  exact hthread (ThreadFunc.life_eq_dead.mp (h.life ▸ hdead))

/-- What the owner's steps of a safe state have to show. -/
theorem Safe.setOwner {s : EventLoopThread F} (h : s.Safe) {o : Owner} {loop : EventLoop F}
    (hinv : { s with owner := o, loop := loop }.Inv) (hthreads : loop.threads = s.loop.threads)
    (hquit : s.life = .dead → o.inQuit = false)
    (hskip : o = .skipping → s.thread = .notStarted ∨ s.thread = .finished)
    (hjoin : o = .joined → s.thread = .finished)
    (htested : o = .tested → s.loopPtr = true) :
    { s with owner := o, loop := loop }.Safe := by
  refine ⟨hinv, ?_, hskip, hjoin, htested⟩
  intro hdead
  refine ⟨hquit hdead, ?_⟩
  intro tid
  rw [hthreads]
  exact (h.unused hdead).2 tid

/-- What the steps of `threadFunc` of a safe state have to show. -/
theorem Safe.setThread {s s' : EventLoopThread F} (h : s.Safe) (hinv : s'.Inv)
    (howner : s'.owner = s.owner) (hnot : s.thread ≠ .notStarted) (hrunning : s.thread ≠ .finished)
    (hunused : s'.life = .dead →
      s'.owner.inQuit = false ∧ ∀ tid, s'.loop.threads tid = .idle)
    (hcleared : s.loopPtr = true → s'.loopPtr = false → s.owner ≠ .tested) : s'.Safe := by
  refine ⟨hinv, hunused, ?_, ?_, ?_⟩
  · intro hskip
    rcases h.skipping (howner ▸ hskip) with hthread | hthread
    · exact absurd hthread hnot
    · exact absurd hthread hrunning
  · intro hjoined
    exact absurd (h.joined (howner ▸ hjoined)) hrunning
  · intro htested
    rw [howner] at htested
    by_contra hnull
    exact hcleared (h.tested htested) (by simpa using hnull) htested

theorem Safe.step {s : EventLoopThread F} (h : s.Safe) {e : Label F} (he : s.Orderly e) :
    (s.step e).Safe := by
  have hinv := h.inv.step e
  have hquit : s.owner.inQuit = true → s.life ≠ .dead := by
    intro hin hdead
    have hout := (h.unused hdead).1
    simp [hin] at hout
  rcases step_cases s e with hstutter | hstep
  · rw [hstutter]
    exact h
  generalize s.step e = s' at hinv hstep
  cases hstep with
  | startLoop howner =>
    refine ⟨hinv, ?_, by simp, by simp, by simp⟩
    intro hdead
    exact ⟨rfl, (h.unused hdead).2⟩
  | startLoopReturn | loadNull | dtorEnd =>
    exact h.setOwner hinv rfl (fun _ => rfl) (by simp) (by simp) (by simp)
  | dtorLoop howner hptr =>
    exact h.setOwner hinv rfl (fun _ => rfl) (by simp) (by simp) fun _ => hptr
  | dtorNull howner hptr =>
    exact h.setOwner hinv rfl (fun _ => rfl) (fun _ => he howner hptr) (by simp) (by simp)
  | loadLoop howner hptr =>
    have halive := h.inv.alive hptr
    exact h.setOwner hinv rfl (fun hdead => absurd hdead halive) (by simp) (by simp) (by simp)
  | storeQuit howner | checkThread howner =>
    have halive := hquit (by rw [howner]; rfl)
    exact h.setOwner hinv rfl (fun hdead => absurd hdead halive) (by simp) (by simp) (by simp)
  -- `quit` returns, the loop is not used again
  | wakeup howner => exact h.setOwner hinv rfl (fun _ => rfl) (by simp) (by simp) (by simp)
  | join howner hthread =>
    exact h.setOwner hinv rfl (fun _ => rfl) (by simp) (fun _ => hthread) (by simp)
  | construct hthread | enterLoop hthread =>
    refine h.setThread hinv rfl (by simp [hthread]) (by simp [hthread])
      (fun hdead => absurd hdead (hinv.not_dead (by simp))) ?_
    intro hptr hnull
    rw [hptr] at hnull
    cases hnull
  | publish hthread =>
    exact h.setThread hinv rfl (by simp [hthread]) (by simp [hthread])
      (fun hdead => absurd hdead (hinv.not_dead (by simp))) (fun _ hnull => by cases hnull)
  -- the next two are what `Orderly` asks
  | clear hthread =>
    exact h.setThread hinv rfl (by simp [hthread]) (by simp [hthread])
      (fun hdead => absurd hdead (hinv.not_dead (by simp))) fun _ _ => he hthread
  | destroy hthread =>
    refine h.setThread hinv rfl (by simp [hthread]) (by simp [hthread]) (fun _ => he hthread) ?_
    intro hptr hnull
    rw [hptr] at hnull
    cases hnull
  | inLoop e hthread hin =>
    have hrunning : afterLoopStep (s.loop.step e).pc ≠ .finished := by
      rcases afterLoopStep_cases (s.loop.step e).pc with hafter | hafter
      · simp [hafter]
      · simp [hafter]
    refine h.setThread hinv rfl (by simp [hthread]) (by simp [hthread])
      (fun hdead => absurd hdead (hinv.not_dead hrunning)) ?_
    intro hptr hnull
    rw [hptr] at hnull
    cases hnull
  | other e hlife hother =>
    refine ⟨hinv, ?_, h.skipping, h.joined, h.tested⟩
    intro hdead
    rcases h.unused hdead with ⟨hout, hidle⟩
    refine ⟨hout, ?_⟩
    -- everybody is idle, so the step is a stutter
    cases e with
    | push tid cb => exact absurd hdead (he (hidle tid))
    | quit tid => exact absurd hdead (he (hidle tid))
    | wakeup tid =>
      intro tid'
      simp only [EventLoop.step, if_pos (hidle tid)]
      exact hidle tid'
    | _ => simp [EventLoop.Label.fromOther] at hother

theorem Safe.handshake {s : EventLoopThread F} (h : s.Safe) {e : Label F} (he : s.Orderly e) :
    s.Handshake e := by
  constructor
  · intro htouch hdead
    rcases h.unused hdead with ⟨hout, hidle⟩
    cases e with
    | storeQuit | checkThread | wakeup =>
      have howner : s.owner = _ := htouch
      simp [howner, Owner.inQuit] at hout
    | other e =>
      cases e with
      | quit tid => exact he (hidle tid) hdead
      | wakeup tid => exact htouch.2 (hidle tid)
      | _ => exact htouch.elim
    | _ => exact htouch.elim
  · rintro ⟨_, htested⟩
    exact h.tested htested
  · rintro ⟨rfl, hjoined | hskipping⟩
    · exact Or.inr (h.joined hjoined)
    · exact h.skipping hskipping

/-! ## Disorderly steps -/

/-- The loop is destroyed under a call: the next step of the call touches it. -/
theorem destroyed_in_call {s : EventLoopThread F} (hthread : s.thread = .destroying)
    (hbusy : ¬ (s.owner.inQuit = false ∧ ∀ tid, s.loop.threads tid = .idle)) :
    ∃ e, ¬ (s.step .destroy).Handshake e := by
  have hstep : s.step .destroy = { s with thread := .finished, life := .dead } := by
    simp [step, hthread]
  rw [hstep]
  -- the destructor is in `quit`, or another thread is in a call
  by_cases hin : s.owner.inQuit = true
  · cases howner : s.owner with
    | calling => exact ⟨.storeQuit, fun hshake => hshake.touch rfl rfl⟩
    | stored => exact ⟨.checkThread, fun hshake => hshake.touch rfl rfl⟩
    | waking => exact ⟨.wakeup, fun hshake => hshake.touch rfl rfl⟩
    | _ => simp [howner, Owner.inQuit] at hin
  · have hother : ∃ tid, s.loop.threads tid ≠ .idle := by
      by_contra hall
      push Not at hall
      exact hbusy ⟨by simpa using hin, hall⟩
    rcases hother with ⟨tid, htid⟩
    exact ⟨.other (.wakeup tid), fun hshake => hshake.touch ⟨by simp, htid⟩ rfl⟩

/-- After a disorderly step the handshake is broken, or the next step of the
same thread can break it. -/
theorem disorderly_breaks {s : EventLoopThread F} {e : Label F} (h : ¬ s.Orderly e) :
    ¬ s.Handshake e ∨ ∃ e', ¬ (s.step e).Handshake e' := by
  cases e with
  | clear =>
    simp only [Orderly, Classical.not_imp, not_not] at h
    rcases h with ⟨hthread, howner⟩
    -- the destructor has tested `loop_`, and reads it again
    have hstep : s.step .clear = { s with thread := .destroying, loopPtr := false } := by
      simp [step, hthread]
    right
    refine ⟨.loadLoop, fun hshake => ?_⟩
    rw [hstep] at hshake
    have hptr := hshake.called ⟨rfl, howner⟩
    cases hptr
  | destroy =>
    simp only [Orderly, Classical.not_imp] at h
    exact Or.inr (destroyed_in_call h.1 h.2)
  | dtor =>
    simp only [Orderly, Classical.not_imp] at h
    rcases h with ⟨howner, hptr, hthread⟩
    -- `loop_` is null already, so there is no `join`
    have hstep : s.step .dtor = { s with owner := .skipping } := by
      simp [step, howner, hptr]
    right
    refine ⟨.dtorEnd, fun hshake => ?_⟩
    rw [hstep] at hshake
    exact hthread (hshake.finished ⟨rfl, Or.inr rfl⟩)
  | other e =>
    cases e with
    | push tid cb =>
      simp only [Orderly, Classical.not_imp, not_not] at h
      rcases h with ⟨hidle, hdead⟩
      right
      -- the push went to freed memory, its wakeup does too
      refine ⟨.other (.wakeup tid), fun hshake => ?_⟩
      have hstep : s.step (.other (.push tid cb)) =
          { s with loop := (s.loop.pushFunctor cb).setThread tid .pushed } := by
        simp [step, hdead, EventLoop.Label.fromOther, EventLoop.step, hidle]
      rw [hstep] at hshake
      refine hshake.touch ⟨?_, ?_⟩ hdead
      · show s.life ≠ .unborn
        simp [hdead]
      · simp [EventLoop.setThread]
    | quit tid =>
      simp only [Orderly, Classical.not_imp, not_not] at h
      rcases h with ⟨hidle, hdead⟩
      left
      intro hshake
      exact hshake.touch ⟨by simp [hdead], hidle⟩ hdead
    | _ => exact absurd trivial h
  | _ => exact absurd trivial h

/-- In every run of orderly steps the destructor and `threadFunc` part
properly; a run can be brought to break the handshake after any other step. -/
theorem teardown_handshake (es : List (Label F)) :
    (EachStep step new Orderly es → EachStep step new Handshake es) ∧
      ∀ e, ¬ Orderly (run step new es) e →
        ∃ es', ¬ EachStep step new Handshake (es ++ e :: es') := by
  constructor
  · intro h pre e hpre
    -- every step before this one was orderly
    have hbefore := h.of_prefix ((List.prefix_append pre [e]).trans hpre)
    have hsafe : Always step new Safe pre :=
      always_of_eachStep new_safe (fun _ _ hs he => hs.step he) hbefore
    exact hsafe.last.handshake (h pre e hpre)
  · intro e h
    rcases disorderly_breaks h with hnow | ⟨e', hnext⟩
    · exact ⟨[], fun hall => hnow hall.last⟩
    · refine ⟨[e'], fun hall => hnext ?_⟩
      have hwhole : es ++ [e, e'] = es ++ [e] ++ [e'] := by simp
      rw [hwhole] at hall
      have hlast := hall.last
      rwa [run_concat] at hlast

/-- The loop sees the stored `quit_`, and is gone when the destructor comes to
its wakeup. -/
def loopGone : List (Label Nat) :=
  [.startLoop, .construct, .publish, .enterLoop, .startLoopReturn, .dtor, .loadLoop, .storeQuit,
    .inLoop .test, .clear, .destroy, .checkThread]

theorem wakeup_on_dead_loop : ¬ EachStep step new Handshake (loopGone ++ [.wakeup]) := by
  intro h
  exact h.last.touch rfl rfl

end EventLoopThread

end EchoServer
