import EchoServer.FunctorQueue

/-!
# How long a functor waits

A functor waits for the batch under way, for the return of one `poll`, and for the
functors that are ahead of it. Other threads and the functors themselves may queue
more in the meantime: it all goes behind.

* `works`, `polls`: the steps of the loop thread that are counted;
* `stepsLeft`, `pollsLeft`: what is left of them before functor number `n` is called;
* `functor_waits_bounded`: every moment of every run.
-/

namespace EchoServer

open Runs

variable {F : Type u}

namespace EventLoop

/-- `poll` returns. -/
def polls (s : EventLoop F) (e : Label F) : Bool :=
  match e, s.pc with
  | .poll wakeup, .polling => !s.queueing && !(wakeup && s.wakeupFd == 0)
  | _, _ => false

/-- The loop thread gets on inside `loop()`: a step of its own, not one of a handler or a
functor, and not the test that ends the loop. -/
def works (s : EventLoop F) (e : Label F) : Bool :=
  match e, s.pc with
  | .test, .test => !s.queueing && !s.quit
  | .poll wakeup, .polling => !s.queueing && !(wakeup && s.wakeupFd == 0)
  | .handleRead, .handling true => !s.queueing
  | .doPendingFunctors, .handling false => !s.queueing
  | .swap, .swapping => !s.queueing
  | .call, .batch (_ :: _) => !s.queueing
  | .return, .executing _ => !s.queueing
  | .endPendingFunctors, .batch [] => !s.queueing
  | _, _ => false

/-- Functor number `n` has been queued, and not yet called. -/
structure Waits (n : Nat) (s : EventLoop F) : Prop where
  conserved : s.executed ++ s.waiting = s.queued
  queued : n < s.queued.length
  uncalled : s.executed.length ≤ n

/-- The steps of the loop thread before functor number `n` is called: two for each one
ahead of it, and the way to the batch it is in. -/
def stepsLeft (n : Nat) (s : EventLoop F) : Nat :=
  2 * (n - s.executed.length) +
    match s.pc with
    | .outside => 6
    | .test => 6
    | .polling => 5
    | .handling true => 4
    | .handling false => 3
    | .swapping => 2
    | .batch rest => if n < s.executed.length + rest.length then 1 else 7
    | .executing rest => if n < s.executed.length + rest.length then 2 else 8

def pollsLeft (n : Nat) (s : EventLoop F) : Nat :=
  match s.pc with
  | .outside => 1
  | .test => 1
  | .polling => 1
  | .handling _ => 0
  | .swapping => 0
  | .batch rest => if n < s.executed.length + rest.length then 0 else 1
  | .executing rest => if n < s.executed.length + rest.length then 0 else 1

theorem stepsLeft_le (n : Nat) (s : EventLoop F) :
    s.stepsLeft n ≤ 2 * (n - s.executed.length) + 8 := by
  unfold stepsLeft
  apply Nat.add_le_add_left
  split
  · decide
  · decide
  · decide
  · decide
  · decide
  · decide
  · split <;> decide
  · split <;> decide

theorem pollsLeft_le (n : Nat) (s : EventLoop F) : s.pollsLeft n ≤ 1 := by
  unfold pollsLeft
  split
  · exact Nat.le_refl 1
  · exact Nat.le_refl 1
  · exact Nat.le_refl 1
  · exact Nat.zero_le 1
  · exact Nat.zero_le 1
  · split <;> decide
  · split <;> decide

/-- A step that is counted is taken. -/
theorem pc_step_of_works {s : EventLoop F} {e : Label F} (h : s.works e = true) :
    (s.step e).pc ≠ s.pc := by
  unfold works at h
  split at h
  case h_2 wakeup hpc =>
    cases wakeup with
    | true => simp_all [step, loopStep]
    | false => simp_all [step, loopStep]
  all_goals simp_all [step, loopStep]

theorem works_of_polls {s : EventLoop F} {e : Label F} (h : s.polls e = true) :
    s.works e = true := by
  unfold polls at h
  split at h
  · rename_i wakeup hpc
    simpa [works, hpc] using h
  · simp at h

/-- A step that is not taken is not counted. -/
theorem works_of_stutter {s : EventLoop F} {e : Label F} (h : s.step e = s) :
    s.works e = false := by
  by_contra hworks
  have hmoves := pc_step_of_works (by simpa using hworks)
  rw [h] at hmoves
  exact hmoves rfl

theorem polls_of_stutter {s : EventLoop F} {e : Label F} (h : s.step e = s) :
    s.polls e = false := by
  by_contra hpolls
  have hworks := works_of_polls (by simpa using hpolls)
  rw [works_of_stutter h] at hworks
  cases hworks

section
variable {s s' : EventLoop F} {n : Nat} {e : Label F}

/-- Before the swap functor number `n` is pending. -/
theorem Waits.lt_pending (h : Waits n s) (hrest : s.pc.rest = []) :
    n < s.executed.length + s.pendingFunctors.length := by
  have hlength := congrArg List.length h.conserved
  rw [waiting, hrest, List.nil_append, List.length_append] at hlength
  rw [hlength]
  exact h.queued

/-- Each step that is counted brings functor number `n` nearer. -/
theorem stepsLeft_step (h : Waits n s) (hstep : Step s e s') (h' : s'.executed.length ≤ n) :
    (s.works e).toNat + s'.stepsLeft n ≤ s.stepsLeft n := by
  cases hstep with
  | push tid cb hthread => exact Nat.le_of_eq (Nat.zero_add _)
  | quit tid hthread => exact Nat.le_of_eq (Nat.zero_add _)
  | wakeup tid hthread => exact Nat.le_of_eq (Nat.zero_add _)
  | queueWakeup hqueueing hcalling => exact Nat.le_of_eq (Nat.zero_add _)
  | queueSilent hqueueing hcalling => exact Nat.le_of_eq (Nat.zero_add _)
  | queueInLoop cb hidle huser => exact Nat.le_of_eq (Nat.zero_add _)
  | quitInLoop hidle huser => exact Nat.le_of_eq (Nat.zero_add _)
  | loop hidle hpc => simp [works, stepsLeft, hpc]
  | testQuit hidle hpc hquit => simp [works, stepsLeft, hpc, hquit]
  | testGoOn hidle hpc hquit =>
    simp only [works, stepsLeft, hpc, hidle, hquit]
    simp
    omega
  | poll wakeup hidle hpc hactive =>
    have hreturns : s.works (.poll wakeup) = true := by
      simp only [works, hpc, hidle]
      cases wakeup with
      | true => simp [hactive rfl]
      | false => rfl
    rw [hreturns]
    cases wakeup with
    | true =>
      simp only [stepsLeft, hpc, Bool.toNat_true]
      omega
    | false =>
      simp only [stepsLeft, hpc, Bool.toNat_true]
      omega
  | handleRead hidle hpc =>
    simp only [works, stepsLeft, hpc, hidle]
    simp
    omega
  | doPendingFunctors hidle hpc =>
    simp only [works, stepsLeft, hpc, hidle]
    simp
    omega
  | swap hidle hpc =>
    -- the batch is what was pending, functor number `n` included
    have hlt := h.lt_pending (by rw [hpc]; rfl)
    simp only [works, stepsLeft, hpc, hidle, if_pos hlt]
    simp
    omega
  | call cb rest hidle hpc =>
    have hlt : (s.executed ++ [cb]).length ≤ n := h'
    rw [List.length_append, List.length_singleton] at hlt
    simp only [works, stepsLeft, hpc, hidle, List.length_append, List.length_cons,
      List.length_nil]
    simp only [Bool.not_false, Bool.toNat_true]
    split <;> split <;> omega
  | «return» rest hidle hpc =>
    simp only [works, stepsLeft, hpc, hidle, Bool.not_false, Bool.toNat_true]
    split <;> omega
  | endPendingFunctors hidle hpc =>
    have hnot : ¬ n < s.executed.length + 0 := by
      have huncalled := h.uncalled
      omega
    simp only [works, stepsLeft, hpc, hidle, List.length_nil, if_neg hnot, Bool.not_false,
      Bool.toNat_true]
    omega

theorem pollsLeft_step (h : Waits n s) (hstep : Step s e s') (h' : s'.executed.length ≤ n) :
    (s.polls e).toNat + s'.pollsLeft n ≤ s.pollsLeft n := by
  cases hstep with
  | push tid cb hthread => exact Nat.le_of_eq (Nat.zero_add _)
  | quit tid hthread => exact Nat.le_of_eq (Nat.zero_add _)
  | wakeup tid hthread => exact Nat.le_of_eq (Nat.zero_add _)
  | queueWakeup hqueueing hcalling => exact Nat.le_of_eq (Nat.zero_add _)
  | queueSilent hqueueing hcalling => exact Nat.le_of_eq (Nat.zero_add _)
  | queueInLoop cb hidle huser => exact Nat.le_of_eq (Nat.zero_add _)
  | quitInLoop hidle huser => exact Nat.le_of_eq (Nat.zero_add _)
  | loop hidle hpc => simp [polls, pollsLeft, hpc]
  | testQuit hidle hpc hquit => simp [polls, pollsLeft, hpc]
  | testGoOn hidle hpc hquit => simp [polls, pollsLeft, hpc]
  | poll wakeup hidle hpc hactive =>
    have hle := Bool.toNat_le (s.polls (.poll wakeup))
    simpa [pollsLeft, hpc] using hle
  | handleRead hidle hpc => simp [polls, pollsLeft, hpc]
  | doPendingFunctors hidle hpc => simp [polls, pollsLeft, hpc]
  | swap hidle hpc =>
    have hlt := h.lt_pending (by rw [hpc]; rfl)
    simp [polls, pollsLeft, hpc, hlt]
  | call cb rest hidle hpc =>
    simp only [polls, pollsLeft, hpc, List.length_append, List.length_cons, List.length_nil]
    simp only [Bool.toNat_false]
    split <;> split <;> omega
  | «return» rest hidle hpc => simp [polls, pollsLeft, hpc]
  | endPendingFunctors hidle hpc =>
    have hnot : ¬ n < s.executed.length := Nat.not_lt.mpr h.uncalled
    simp [polls, pollsLeft, hpc, hnot]

/-- A functor that has been called stays called. -/
theorem executed_length_run (s : EventLoop F) (es : List (Label F)) :
    s.executed.length ≤ (run step s es).executed.length := by
  induction es generalizing s with
  | nil => exact Nat.le_refl _
  | cons e es ih =>
    refine Nat.le_trans ?_ (ih (s.step e))
    rcases callsOne s e with hsame | ⟨_, _, cb, rest, _, hcalls⟩
    · rw [hsame]
    · rw [hcalls, List.length_append]
      exact Nat.le_add_right _ _

/-- What has been called and what waits are the functors queued, before and after. -/
theorem conserved_step (h : s.executed ++ s.waiting = s.queued) (e : Label F) :
    (s.step e).executed ++ (s.step e).waiting = (s.step e).queued := by
  have hqueue := queueStep s e
  generalize s.step e = s' at hqueue
  cases hqueue with
  | other _ _ hqueued hexecuted hwaiting => rw [hexecuted, hwaiting, hqueued, h]
  | push _ _ cb hqueued hexecuted hwaiting =>
    rw [hexecuted, hwaiting, hqueued, ← List.append_assoc, h]
  | call _ cb rest hqueueing hpc hpc' hqueued hexecuted hpending =>
    rw [waiting, hpc] at h
    rw [hexecuted, waiting, hpc', hpending, hqueued, ← h]
    simp [Pc.rest]

theorem queued_isPrefix_step (s : EventLoop F) (e : Label F) : s.queued <+: (s.step e).queued := by
  have hqueue := queueStep s e
  generalize s.step e = s' at hqueue
  cases hqueue with
  | other _ _ hqueued => rw [hqueued]
  | push _ _ cb hqueued =>
    rw [hqueued]
    exact List.prefix_append _ _
  | call _ cb rest hqueueing hpc hpc' hqueued => rw [hqueued]

/-- It keeps waiting until it is called. -/
theorem Waits.step (h : Waits n s) (h' : (s.step e).executed.length ≤ n) : Waits n (s.step e) :=
  ⟨conserved_step h.conserved e,
    Nat.lt_of_lt_of_le h.queued (queued_isPrefix_step s e).length_le, h'⟩

end

/-- While functor number `n` waits, the counted steps use up what is left of them. -/
theorem countSteps_le_left {mark : EventLoop F → Label F → Bool} {left : EventLoop F → Nat}
    {n : Nat} (hmark : ∀ s e, s.step e = s → mark s e = false)
    (hleft : ∀ s e s', Waits n s → Step s e s' → s'.executed.length ≤ n →
      (mark s e).toNat + left s' ≤ left s)
    {s : EventLoop F} (h : Waits n s) {es : List (Label F)}
    (hwaits : (run step s es).executed.length ≤ n) :
    countSteps step mark s es ≤ left s := by
  apply countSteps_le fun s es b =>
    Waits n s ∧ (run step s es).executed.length ≤ n ∧ left s ≤ b
  · rintro s e es b ⟨h, hwaits, hle⟩
    have h' : (s.step e).executed.length ≤ n :=
      Nat.le_trans (executed_length_run (s.step e) es) hwaits
    refine ⟨left (s.step e), ?_, h.step h', hwaits, Nat.le_refl _⟩
    refine Nat.le_trans ?_ hle
    rcases step_cases s e with hstutter | hstep
    · rw [hmark s e hstutter, hstutter]
      exact Nat.le_of_eq (Nat.zero_add _)
    · exact hleft s e _ h hstep h'
  · exact ⟨h, hwaits, Nat.le_refl _⟩

/-- As long as functor number `n` has not been called, `poll` returns at most once, and
the loop thread takes at most two steps for each functor ahead of it and eight more. -/
theorem functor_waits_bounded (pre mid : List (Label F)) (n : Nat)
    (hqueued : n < (run step new pre).queued.length)
    (hwaits : (run step new (pre ++ mid)).executed.length ≤ n) :
    countSteps step polls (run step new pre) mid ≤ 1 ∧
      countSteps step works (run step new pre) mid ≤
        2 * (n - (run step new pre).executed.length) + 8 := by
  rw [run_append] at hwaits
  have h : Waits n (run step new pre) :=
    ⟨run_conserved pre, hqueued, Nat.le_trans (executed_length_run _ mid) hwaits⟩
  constructor
  · refine Nat.le_trans ?_ (pollsLeft_le n (run step new pre))
    exact countSteps_le_left (fun s e => polls_of_stutter) (fun s e s' => pollsLeft_step) h hwaits
  · refine Nat.le_trans ?_ (stepsLeft_le n (run step new pre))
    exact countSteps_le_left (fun s e => works_of_stutter) (fun s e s' => stepsLeft_step) h hwaits

/-- Functor 7 is queued while functor 1 runs, which came with the batch of an earlier
`poll`; it is called in the next batch. -/
def queuedInBatch : List (Label Nat) :=
  [.loop, .push 0 1, .wakeup 0, .push 0 2, .wakeup 0, .test, .poll true, .handleRead,
    .doPendingFunctors, .swap, .call, .push 0 7, .wakeup 0]

def nextBatch : List (Label Nat) :=
  [.return, .call, .return, .endPendingFunctors, .test, .poll true, .handleRead,
    .doPendingFunctors, .swap]

theorem functor_waits_bounded_batch :
    countSteps step polls (run step new queuedInBatch) nextBatch ≤ 1 ∧
      countSteps step works (run step new queuedInBatch) nextBatch ≤
        2 * (2 - (run step new queuedInBatch).executed.length) + 8 :=
  functor_waits_bounded queuedInBatch nextBatch 2 (by decide) (by decide)

end EventLoop

end EchoServer
