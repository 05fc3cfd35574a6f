import EchoServer.FunctorQueue

/-!
# Work queued before quit

`loop` tests `quit_` once per iteration, right after `doPendingFunctors`. A
thread that queues a functor and calls `quit` gets the functor done only if a
swap lies between the push and the test that ends the loop.

* `Due`: the functors some thread has queued before it called `quit`;
* `Secured`, `Secured.step`: where a functor cannot be missed any more;
* `TimelyQuit`: a `quit` that comes while the swap of the iteration is ahead,
  or with nothing of the thread's left in `pendingFunctors_`;
* `quit_drains`: with timely quits alone nothing due is left, and after any
  other quit the loop can return with work undone.
-/

namespace EchoServer

open Runs

variable {F : Type u}

namespace EventLoop

/-! ## What is due -/

/-- Thread `tid` has queued `cb`, as number `i`. -/
def PushedBy (tid i : Nat) (cb : F) (es : List (Label F)) : Prop :=
  ∃ pre, pre ++ [.push tid cb] <+: es ∧ (run step new pre).threads tid = .idle ∧
    (run step new pre).queued.length = i

/-- A thread has queued `cb`, as number `i`, and then called `quit`. -/
def Due (i : Nat) (cb : F) (es : List (Label F)) : Prop :=
  ∃ pre tid, pre ++ [.quit tid] <+: es ∧ (run step new pre).threads tid = .idle ∧
    PushedBy tid i cb pre

/-- `loop()` leaves its `while` and returns. -/
def Returns (s : EventLoop F) (e : Label F) : Prop :=
  e = .test ∧ s.pc = .test ∧ s.queueing = false ∧ s.quit = true

/-- Whenever `loop()` returns, what is due has been called. -/
def QuitDrains (es : List (Label F)) : Prop :=
  AtEachStep (fun pre e => Returns (run step new pre) e →
    ∀ i cb, Due i cb pre → (run step new pre).executed[i]? = some cb) es

/-- The next test of `quit_` comes after a swap. -/
def SwapAhead : Pc F → Prop
  | .polling => True
  | .handling _ => True
  | .swapping => True
  | _ => False

/-- A thread calls `quit` while a swap is ahead, or when none of its functors
is in `pendingFunctors_`. -/
def TimelyQuit (pre : List (Label F)) : Label F → Prop
  | .quit tid => (run step new pre).threads tid = .idle →
      SwapAhead (run step new pre).pc ∨ ∀ i cb, PushedBy tid i cb pre →
        i < (run step new pre).executed.length + (run step new pre).pc.rest.length
  | _ => True

theorem PushedBy.mono {tid i : Nat} {cb : F} {pre es : List (Label F)}
    (h : PushedBy tid i cb pre) (hpre : pre <+: es) : PushedBy tid i cb es := by
  rcases h with ⟨first, hfirst, hrest⟩
  exact ⟨first, hfirst.trans hpre, hrest⟩

theorem Due.mono {i : Nat} {cb : F} {pre es : List (Label F)} (h : Due i cb pre)
    (hpre : pre <+: es) : Due i cb es := by
  rcases h with ⟨first, tid, hfirst, hrest⟩
  exact ⟨first, tid, hfirst.trans hpre, hrest⟩

theorem queues_push {pre : List (Label F)} {tid : Nat} {cb : F}
    (hidle : (run step new pre).threads tid = .idle) :
    Queues (run step new pre) (.push tid cb) cb := by
  simp [Queues, step, hidle, pushFunctor, setThread]

theorem PushedBy.lt {tid i : Nat} {cb : F} {es : List (Label F)} (h : PushedBy tid i cb es) :
    i < (run step new es).queued.length := by
  rcases h with ⟨pre, hpre, hidle, rfl⟩
  have hle := (queued_isPrefix hpre).length_le
  rw [run_concat, queues_push hidle, List.length_append, List.length_singleton] at hle
  omega

theorem PushedBy.called {tid i : Nat} {cb : F} {es : List (Label F)} (h : PushedBy tid i cb es)
    (hi : i < (run step new es).executed.length) : (run step new es).executed[i]? = some cb := by
  rcases h with ⟨pre, hpre, hidle, rfl⟩
  exact executed_number hpre (queues_push hidle) hi

/-! ## Before the next test -/

/-- Functor number `i` will have been called when `quit_` is tested next. -/
def Secured (s : EventLoop F) (i : Nat) : Prop :=
  i < s.executed.length + s.pc.rest.length ∨ SwapAhead s.pc ∧ i < s.queued.length

theorem Secured.of_same {s s' : EventLoop F} {i : Nat} (h : s.Secured i)
    (hexecuted : s'.executed = s.executed) (hrest : s'.pc.rest = s.pc.rest)
    (hqueued : s.queued.length ≤ s'.queued.length) (hahead : SwapAhead s.pc → SwapAhead s'.pc) :
    s'.Secured i := by
  rcases h with hcalled | ⟨hswap, hlt⟩
  · left
    rw [hexecuted, hrest]
    exact hcalled
  · right
    exact ⟨hahead hswap, by omega⟩

/-- A functor that is secured stays so, whatever happens. -/
theorem Secured.step {s : EventLoop F} {i : Nat}
    (hconserved : s.executed ++ s.waiting = s.queued) (h : s.Secured i) (e : Label F) :
    (s.step e).Secured i := by
  refine covers.elim (P := fun s' => s'.Secured i) h ?_
  intro s' hstep
  cases hstep with
  -- what is queued behind it does not matter
  | push tid cb hthread => exact h.of_same rfl rfl (by simp [pushFunctor, setThread]) id
  | queueInLoop cb hidle huser => exact h.of_same rfl rfl (by simp [pushFunctor]) id
  | quit | wakeup | queueWakeup | queueSilent | quitInLoop =>
    exact h.of_same rfl rfl (Nat.le_refl _) id
  | loop hidle hpc | testQuit hidle hpc | testGoOn hidle hpc | «return» _ hidle hpc
  | endPendingFunctors hidle hpc =>
    exact h.of_same rfl (by simp [hpc, Pc.rest]) (Nat.le_refl _) (by simp [hpc, SwapAhead])
  | poll _ hidle hpc | handleRead hidle hpc | doPendingFunctors hidle hpc =>
    exact h.of_same rfl (by simp [hpc, Pc.rest]) (Nat.le_refl _) (by simp [SwapAhead])
  | swap hidle hpc =>
    -- everything queued so far is called or in the batch
    left
    have hlength := congrArg List.length hconserved
    simp only [waiting, hpc, Pc.rest, List.nil_append, List.length_append] at hlength
    show i < s.executed.length + s.pendingFunctors.length
    rcases h with hcalled | ⟨_, hlt⟩
    · simp only [hpc, Pc.rest, List.length_nil] at hcalled
      omega
    · omega
  | call cb rest hidle hpc =>
    left
    show i < (s.executed ++ [cb]).length + rest.length
    -- from the batch to the called ones
    rcases h with hcalled | ⟨hswap, _⟩
    · simp only [hpc, Pc.rest, List.length_cons] at hcalled
      simp only [List.length_append, List.length_singleton]
      omega
    · simp [hpc, SwapAhead] at hswap

/-- At the end of the loop, secured means called. -/
theorem Secured.called {s : EventLoop F} {i : Nat} (h : s.Secured i) (hpc : s.pc = .test) :
    i < s.executed.length := by
  rcases h with hcalled | ⟨hswap, _⟩
  · simpa [hpc, Pc.rest] using hcalled
  · simp [hpc, SwapAhead] at hswap

/-- Where every `quit` has been timely, what is due is secured. -/
theorem due_secured {es : List (Label F)} (h : AtEachStep TimelyQuit es) {i : Nat} {cb : F}
    (hdue : Due i cb es) : (run step new es).Secured i := by
  induction es using List.reverseRecOn with
  | nil =>
    rcases hdue with ⟨pre, tid, hpre, _⟩
    exact absurd hpre not_concat_isPrefix_nil
  | append_singleton es e ih =>
    rcases atEachStep_concat.mp h with ⟨hes, htimely⟩
    rw [run_concat]
    rcases hdue with ⟨pre, tid, hpre, hidle, hpushed⟩
    rcases concat_isPrefix_concat_iff.mp hpre with hearlier | ⟨rfl, rfl⟩
    · exact Secured.step (run_conserved es) (ih hes ⟨pre, tid, hearlier, hidle, hpushed⟩) e
    · -- the last step is the quit
      refine Secured.step (run_conserved pre) ?_ _
      rcases htimely hidle with hswap | hcalled
      · exact Or.inr ⟨hswap, hpushed.lt⟩
      · exact Or.inl (hcalled i cb hpushed)

/-! ## Returning too early -/

/-- From the batch to the test, with `quit_` set and nothing else happening. -/
theorem finish_batch {s : EventLoop F} (hqueueing : s.queueing = false) (hquit : s.quit = true)
    {rest : List F} (hpc : s.pc = .batch rest) :
    ∃ es, (run step s es).pc = .test ∧ (run step s es).queueing = false ∧
      (run step s es).quit = true ∧
      (run step s es).executed.length = s.executed.length + rest.length := by
  induction rest generalizing s with
  | nil =>
    refine ⟨[.endPendingFunctors], ?_⟩
    simp [step, loopStep, hqueueing, hpc, hquit]
  | cons cb rest ih =>
    -- call the functor, let it return, go on
    have hcalled : (run step s [.call, .return]).pc = .batch rest := by
      simp [step, loopStep, hqueueing, hpc]
    have hidle : (run step s [.call, .return]).queueing = false := by
      simp [step, loopStep, hqueueing, hpc]
    have hset : (run step s [.call, .return]).quit = true := by
      simp [step, loopStep, hqueueing, hpc, hquit]
    have hone : (run step s [.call, .return]).executed.length = s.executed.length + 1 := by
      simp [step, loopStep, hqueueing, hpc]
    rcases ih hidle hset hcalled with ⟨es, htest, hfree, hstill, hlength⟩
    refine ⟨[.call, .return] ++ es, ?_⟩
    rw [run_append]
    refine ⟨htest, hfree, hstill, ?_⟩
    rw [hlength, hone, List.length_cons]
    omega

/-- The same from inside a functor. -/
theorem finish_functor {s : EventLoop F} (hqueueing : s.queueing = false) (hquit : s.quit = true)
    {rest : List F} (hpc : s.pc = .executing rest) :
    ∃ es, (run step s es).pc = .test ∧ (run step s es).queueing = false ∧
      (run step s es).quit = true ∧
      (run step s es).executed.length = s.executed.length + rest.length := by
  have hreturn : step s .return = { s with pc := .batch rest } := by
    simp [step, loopStep, hqueueing, hpc]
  have hbatch : (step s .return).pc = .batch rest := by rw [hreturn]
  have hidle : (step s .return).queueing = false := by rw [hreturn]; exact hqueueing
  have hset : (step s .return).quit = true := by rw [hreturn]; exact hquit
  rcases finish_batch hidle hset hbatch with ⟨es, htest, hfree, hstill, hlength⟩
  refine ⟨.return :: es, htest, hfree, hstill, ?_⟩
  rw [run_cons, hlength, hreturn]

/-- And from inside a `queueInLoop` of a functor. -/
theorem finish_queueing {s : EventLoop F} (hquit : s.quit = true) {rest : List F}
    (hpc : s.pc = .executing rest) :
    ∃ es, (run step s es).pc = .test ∧ (run step s es).queueing = false ∧
      (run step s es).quit = true ∧
      (run step s es).executed.length = s.executed.length + rest.length := by
  have hwake : (step s .queueWakeup).queueing = false ∧ (step s .queueWakeup).quit = true ∧
      (step s .queueWakeup).pc = .executing rest ∧
      (step s .queueWakeup).executed = s.executed := by
    by_cases hqueueing : s.queueing = true
    · by_cases hcalling : s.callingPendingFunctors = true
      · simp [step, hqueueing, hcalling, hquit, hpc, wakeup]
      · simp [step, hqueueing, hcalling, hquit, hpc]
    · simp [step, hqueueing, hquit, hpc]
  rcases hwake with ⟨hidle, hset, hpc', hexecuted⟩
  rcases finish_functor hidle hset hpc' with ⟨es, htest, hfree, hstill, hlength⟩
  refine ⟨.queueWakeup :: es, htest, hfree, hstill, ?_⟩
  rw [run_cons, hlength, hexecuted]

/-- After a `quit` with no swap ahead, `loop()` can return without another one. -/
theorem return_without_swap {s : EventLoop F} (h : s.Inv) (hswap : ¬ SwapAhead s.pc) {tid : Nat}
    (hquit : s.quit = true) (hthread : s.threads tid = .quitStored) :
    ∃ es, (run step s es).pc = .test ∧ (run step s es).queueing = false ∧
      (run step s es).quit = true ∧
      (run step s es).executed.length = s.executed.length + s.pc.rest.length := by
  have hidle : inUserCode s.pc = false → s.queueing = false := by
    intro huser
    by_contra hqueueing
    have := h.queueing (by simpa using hqueueing)
    simp [huser] at this
  cases hpc : s.pc with
  | outside =>
    -- the thread calls `quit` once more, after the loop has cleared the flag
    have hfree := hidle (by simp [hpc, inUserCode])
    refine ⟨[.wakeup tid, .loop, .quit tid], ?_⟩
    simp [step, loopStep, hthread, hfree, hpc, wakeup, setThread, Pc.rest]
  -- `quit_` is tested next
  | test =>
    exact ⟨[], hpc, hidle (by simp [hpc, inUserCode]), hquit, by simp [Pc.rest]⟩
  -- the swap is still ahead
  | polling => simp [hpc, SwapAhead] at hswap
  | handling w => simp [hpc, SwapAhead] at hswap
  | swapping => simp [hpc, SwapAhead] at hswap
  -- the rest of the batch runs first, without a new swap
  | batch rest => exact finish_batch (hidle (by simp [hpc, inUserCode])) hquit hpc
  | executing rest => exact finish_queueing hquit hpc

theorem untimely_returns {es : List (Label F)} {e : Label F} (h : ¬ TimelyQuit es e) :
    ∃ es', ¬ QuitDrains (es ++ e :: es') := by
  cases e with
  | quit tid =>
    simp only [TimelyQuit, Classical.not_imp, not_or, not_forall, not_lt] at h
    rcases h with ⟨hidle, hswap, i, cb, hpushed, hbeyond⟩
    have hinv : (run step new (es ++ [.quit tid])).Inv :=
      run_invariant Inv (fun _ e h => step_inv h e) new_inv _
    have hstored : (run step new (es ++ [.quit tid])) =
        { run step new es with quit := true }.setThread tid .quitStored := by
      rw [run_concat, step, if_pos hidle]
    have hthread : (run step new (es ++ [.quit tid])).threads tid = .quitStored := by
      simp [hstored, setThread]
    have hquit : (run step new (es ++ [.quit tid])).quit = true := by
      rw [hstored]
      rfl
    have hswap' : ¬ SwapAhead (run step new (es ++ [.quit tid])).pc := by
      rw [hstored]
      exact hswap
    rcases return_without_swap hinv hswap' hquit hthread with ⟨es', htest, hfree, hset, hlength⟩
    refine ⟨es' ++ [.test], fun hdrains => ?_⟩
    have hwhole : es ++ .quit tid :: (es' ++ [.test]) = (es ++ [.quit tid] ++ es') ++ [.test] := by
      simp
    rw [hwhole] at hdrains
    have hdue : Due i cb (es ++ [.quit tid] ++ es') :=
      ⟨es, tid, List.prefix_append _ _, hidle, hpushed⟩
    have hcalled := hdrains _ _ (List.prefix_refl _)
      ⟨rfl, by rwa [run_append], by rwa [run_append], by rwa [run_append]⟩ i cb hdue
    have hlt := (List.getElem?_eq_some_iff.mp hcalled).1
    -- it was beyond the batch, and stayed there
    rw [run_append, hlength, hstored] at hlt
    exact absurd hlt (Nat.not_lt.mpr hbeyond)
  | _ => exact absurd trivial h

/-- In every run whose quits are all timely, `loop()` returns with everything
done that a thread queued before its quit; and every run can be brought to
break this after a quit that is not timely. -/
theorem quit_drains (es : List (Label F)) :
    (AtEachStep TimelyQuit es → QuitDrains es) ∧
      ∀ e, ¬ TimelyQuit es e → ∃ es', ¬ QuitDrains (es ++ e :: es') := by
  constructor
  · intro h pre e hpre hreturns i cb hdue
    have hbefore : AtEachStep TimelyQuit pre := by
      intro first f hfirst
      exact h first f (hfirst.trans ((List.prefix_append pre [e]).trans hpre))
    have hsecured := due_secured hbefore hdue
    rcases hdue with ⟨first, tid, hfirst, _, hpushed⟩
    have hpushed' := hpushed.mono ((List.prefix_append first [.quit tid]).trans hfirst)
    exact hpushed'.called (hsecured.called hreturns.2.1)
  · intro e h
    exact untimely_returns h

/-- The functor and the quit arrive while the loop is between its swap and its
test. -/
def lateQuit : List (Label Nat) :=
  [.loop, .test, .poll false, .doPendingFunctors, .swap, .push 1 7, .wakeup 1, .quit 1,
    .endPendingFunctors]

theorem functor_dropped_at_quit : ¬ QuitDrains (lateQuit ++ [.test]) := by
  intro h
  have hdue : Due 0 7 lateQuit :=
    ⟨lateQuit.take 7, 1, ⟨lateQuit.drop 8, rfl⟩, rfl, lateQuit.take 5, ⟨[.wakeup 1], rfl⟩, rfl, rfl⟩
  have hcalled := h lateQuit .test (List.prefix_refl _) ⟨rfl, rfl, rfl, rfl⟩ 0 7 hdue
  exact absurd hcalled (by decide)

end EventLoop

end EchoServer
