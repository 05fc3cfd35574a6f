import EchoServer.FunctorDelay

/-!
# How long a loop goes on after quit

`quit` sets `quit_` and, from another thread, writes the eventfd. `loop` looks at
`quit_` after the functors, so it finishes the iteration it is in. It does not sleep
through the call, and it does not poll again.

* `QuitNoticed`, `QuitNoticed.step`: a `poll` that has missed `quit_` is woken up;
* `Quitting`: `quit_` is set, and `loop()` has not been left;
* `quit_ends_loop`: every moment of every run.
-/

namespace EchoServer

open Runs

variable {F : Type u}

namespace EventLoop

/-- `poll` does not block with `quit_` set: the eventfd is positive, or the thread that
calls `quit` is about to write it. -/
def QuitNoticed (s : EventLoop F) : Prop :=
  s.pc = .polling → s.quit = true → 0 < s.wakeupFd ∨ ∃ tid, s.threads tid = .quitStored

theorem QuitNoticed.of_not_polling {s : EventLoop F} (h : s.pc ≠ .polling) : s.QuitNoticed :=
  fun hpc => absurd hpc h

theorem QuitNoticed.step {s : EventLoop F} (h : s.QuitNoticed) (e : Label F) :
    (s.step e).QuitNoticed := by
  refine covers.elim (P := QuitNoticed) h ?_
  intro s' hstep
  cases hstep with
  | push tid cb hthread =>
    intro hpc hquit
    rcases h hpc hquit with hpos | ⟨tid', hstored⟩
    · exact Or.inl hpos
    · refine Or.inr ⟨tid', ?_⟩
      have hne : tid' ≠ tid := by
        rintro rfl
        rw [hthread] at hstored
        cases hstored
      simpa [setThread, pushFunctor, hne] using hstored
  | quit tid hthread =>
    intro _ _
    exact Or.inr ⟨tid, by simp [setThread]⟩
  | wakeup tid hthread =>
    intro _ _
    exact Or.inl (eventfdWrite_pos s.wakeupFd)
  | queueWakeup hqueueing hcalling =>
    intro _ _
    exact Or.inl (eventfdWrite_pos s.wakeupFd)
  | queueSilent hqueueing hcalling => exact h
  | testGoOn hidle hpc hquit =>
    intro _ hquit'
    rw [hquit] at hquit'
    cases hquit'
  | quitInLoop hidle huser =>
    refine .of_not_polling ?_
    intro hpc
    rw [hpc] at huser
    cases huser
  | queueInLoop cb hidle huser => exact h
  | _ => exact .of_not_polling (by simp_all)

theorem quitNoticed_run (es : List (Label F)) :
    (run step (new : EventLoop F) es).QuitNoticed :=
  run_invariant QuitNoticed (fun _ e h => h.step e) (.of_not_polling (by simp [new])) es

/-- The loop thread is in `loop()`. -/
def Pc.inside : Pc F → Bool
  | .outside => false
  | _ => true

/-- `quit_` is set in `loop()`, and no more than `n` functors are queued in all. -/
structure Quitting (n : Nat) (s : EventLoop F) : Prop where
  conserved : s.executed ++ s.waiting = s.queued
  quit : s.quit = true
  inside : s.pc.inside = true
  queued : s.queued.length ≤ n

/-- The steps to the test of `quit_`, where functors up to number `n` may be called on the
way. -/
def quitLeft (n : Nat) (s : EventLoop F) : Nat :=
  2 * (n - s.executed.length) +
    match s.pc with
    | .outside => 0
    | .test => 0
    | .polling => 5
    | .handling true => 4
    | .handling false => 3
    | .swapping => 2
    | .batch _ => 1
    | .executing _ => 2

/-- `poll` returns once more if it has been entered. -/
def quitPollsLeft (s : EventLoop F) : Nat :=
  match s.pc with
  | .polling => 1
  | _ => 0

theorem quitLeft_le (n : Nat) (s : EventLoop F) :
    s.quitLeft n ≤ 2 * (n - s.executed.length) + 5 := by
  unfold quitLeft
  apply Nat.add_le_add_left
  split <;> decide

theorem quitPollsLeft_le (s : EventLoop F) : s.quitPollsLeft ≤ 1 := by
  unfold quitPollsLeft
  split <;> decide

section
variable {s s' : EventLoop F} {n : Nat} {e : Label F}

theorem Quitting.step (h : Quitting n s) (hinside : (s.step e).pc.inside = true)
    (hqueued : (s.step e).queued.length ≤ n) : Quitting n (s.step e) where
  conserved := conserved_step h.conserved e
  quit := by
    refine covers.elim (P := fun s' => s'.quit = true) h.quit ?_
    intro s' hstep
    cases hstep with
    | loop hidle hpc =>
      have hinside' := h.inside
      rw [hpc] at hinside'
      cases hinside'
    | quit | quitInLoop => rfl
    | _ => exact h.quit
  inside := hinside
  queued := hqueued

theorem quitLeft_step (h : Quitting n s) (hstep : Step s e s') :
    (s.works e).toNat + s'.quitLeft n ≤ s.quitLeft n := by
  cases hstep with
  | push | quit | wakeup | queueWakeup | queueSilent | queueInLoop | quitInLoop =>
    exact Nat.le_of_eq (Nat.zero_add _)
  | loop hidle hpc =>
    have hinside := h.inside
    rw [hpc] at hinside
    cases hinside
  | testQuit hidle hpc hquit => simp [works, quitLeft, hpc, hquit]
  | testGoOn hidle hpc hquit =>
    rw [h.quit] at hquit
    cases hquit
  | poll wakeup hidle hpc hactive =>
    have hcounted := Bool.toNat_le (s.works (.poll wakeup))
    cases wakeup with
    | true =>
      simp only [quitLeft, hpc]
      omega
    | false =>
      simp only [quitLeft, hpc]
      omega
  | handleRead hidle hpc | doPendingFunctors hidle hpc | swap hidle hpc
  | «return» rest hidle hpc | endPendingFunctors hidle hpc =>
    simp only [works, quitLeft, hpc, hidle, Bool.not_false, Bool.toNat_true]
    omega
  | call cb rest hidle hpc =>
    -- the functor is one of the `n`
    have hlength := congrArg List.length h.conserved
    have hqueued := h.queued
    rw [waiting, hpc] at hlength
    simp only [Pc.rest, List.length_append, List.length_cons] at hlength
    simp only [works, quitLeft, hpc, hidle, List.length_append, List.length_cons,
      List.length_nil, Bool.not_false, Bool.toNat_true]
    omega

theorem quitPollsLeft_step (h : Quitting n s) (hstep : Step s e s') :
    (s.polls e).toNat + s'.quitPollsLeft ≤ s.quitPollsLeft := by
  cases hstep with
  | push | quit | wakeup | queueWakeup | queueSilent | queueInLoop | quitInLoop =>
    exact Nat.le_of_eq (Nat.zero_add _)
  | loop hidle hpc =>
    have hinside := h.inside
    rw [hpc] at hinside
    cases hinside
  | testGoOn hidle hpc hquit =>
    rw [h.quit] at hquit
    cases hquit
  | poll wakeup hidle hpc hactive =>
    have hcounted := Bool.toNat_le (s.polls (.poll wakeup))
    simpa [quitPollsLeft, hpc] using hcounted
  | testQuit hidle hpc hquit | handleRead hidle hpc | doPendingFunctors hidle hpc
  | swap hidle hpc | call cb rest hidle hpc | «return» rest hidle hpc
  | endPendingFunctors hidle hpc => simp [polls, quitPollsLeft, hpc]

end

theorem queued_isPrefix_run (s : EventLoop F) (es : List (Label F)) :
    s.queued <+: (run step s es).queued := by
  induction es generalizing s with
  | nil => exact List.prefix_refl _
  | cons e es ih => exact (queued_isPrefix_step s e).trans (ih (s.step e))

/-- Until `loop()` is left, the counted steps use up what is left of them. -/
theorem countSteps_le_quitting {mark : EventLoop F → Label F → Bool} {left : EventLoop F → Nat}
    {n : Nat} (hmark : ∀ s e, s.step e = s → mark s e = false)
    (hleft : ∀ s e s', Quitting n s → Step s e s' → (mark s e).toNat + left s' ≤ left s)
    {s : EventLoop F} (h : Quitting n s) {es : List (Label F)}
    (hinside : Always step s (fun s => s.pc.inside = true) es)
    (hqueued : (run step s es).queued.length ≤ n) : countSteps step mark s es ≤ left s := by
  apply countSteps_le fun s es b => Quitting n s ∧ Always step s (fun s => s.pc.inside = true) es ∧
    (run step s es).queued.length ≤ n ∧ left s ≤ b
  · rintro s e es b ⟨h, hinside, hqueued, hle⟩
    have hnext := (always_cons.mp hinside).2
    have hstep := h.step (hnext [] (List.nil_prefix))
      (Nat.le_trans (queued_isPrefix_run (s.step e) es).length_le hqueued)
    refine ⟨left (s.step e), ?_, hstep, hnext, hqueued, Nat.le_refl _⟩
    refine Nat.le_trans ?_ hle
    rcases step_cases s e with hstutter | htaken
    · rw [hmark s e hstutter, hstutter]
      exact Nat.le_of_eq (Nat.zero_add _)
    · exact hleft s e _ h htaken
  · exact ⟨h, hinside, hqueued, Nat.le_refl _⟩

/-- As long as `loop()` goes on after `quit_` has been set, its `poll` does not block
unnoticed and returns at most once, and the loop thread takes at most two steps for each
functor not yet called and five more. -/
theorem quit_ends_loop (pre mid : List (Label F)) (hquit : (run step new pre).quit = true)
    (hinside : Always step (run step new pre) (fun s => s.pc.inside = true) mid) :
    Always step (run step new pre) QuitNoticed mid ∧
      countSteps step polls (run step new pre) mid ≤ 1 ∧
      countSteps step works (run step new pre) mid ≤
        2 * ((run step new (pre ++ mid)).queued.length -
          (run step new pre).executed.length) + 5 := by
  have h : Quitting (run step new (pre ++ mid)).queued.length (run step new pre) := by
    refine ⟨run_conserved pre, hquit, hinside [] (List.nil_prefix), ?_⟩
    rw [run_append]
    exact (queued_isPrefix_run _ mid).length_le
  have hqueued : (run step (run step new pre) mid).queued.length ≤
      (run step new (pre ++ mid)).queued.length := by
    rw [run_append]
  refine ⟨?_, ?_, ?_⟩
  · intro m hm
    rw [← run_append]
    exact quitNoticed_run (pre ++ m)
  · refine Nat.le_trans ?_ (quitPollsLeft_le (run step new pre))
    exact countSteps_le_quitting (fun s e => polls_of_stutter)
      (fun s e s' => quitPollsLeft_step) h hinside hqueued
  · refine Nat.le_trans ?_ (quitLeft_le _ (run step new pre))
    exact countSteps_le_quitting (fun s e => works_of_stutter)
      (fun s e s' => quitLeft_step) h hinside hqueued

/-- `quit` comes while the loop is in `poll`, and a functor before the swap. -/
def quitInPoll : List (Label Nat) := [.loop, .push 0 1, .wakeup 0, .test, .quit 0]

def lastIteration : List (Label Nat) :=
  [.wakeup 0, .poll true, .handleRead, .push 1 2, .wakeup 1, .doPendingFunctors, .swap, .call,
    .return, .call, .return, .endPendingFunctors]

theorem quit_ends_loop_in_poll :
    Always step (run step new quitInPoll) QuitNoticed lastIteration ∧
      countSteps step polls (run step new quitInPoll) lastIteration ≤ 1 ∧
      countSteps step works (run step new quitInPoll) lastIteration ≤
        2 * ((run step new (quitInPoll ++ lastIteration)).queued.length -
          (run step new quitInPoll).executed.length) + 5 :=
  quit_ends_loop quitInPoll lastIteration rfl (by decide)

end EventLoop

end EchoServer
