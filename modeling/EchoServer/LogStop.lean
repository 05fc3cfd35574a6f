import EchoServer.LogOrder

/-!
# Records before stop

`threadFunc` tests `running_` between two iterations and writes only inside
one. A record that is in the buffers when `stop` comes is written only if the
thread is still before its swap.

* `Due`: the records whose `append` returned before `stop` was called;
* `ahead`, `ahead_step`: what is written before the next test of `running_`;
* `TimelyStop`: a `stop` that comes ahead of `start`, inside an iteration, or
  with everything returned written already;
* `stop_loses_nothing`: with timely stops alone nothing due is lost, and after
  any other stop the thread can return without having written it.
-/

namespace EchoServer

open Runs

namespace AsyncLogging

/-! ## What is due -/

/-- The `append` of record number `i` has returned. -/
def Returned (i : Nat) (es : List Label) : Prop :=
  ∃ pre tid, pre ++ [.appendReturn tid] <+: es ∧ (run step new pre).callers tid = some i

/-- `stop` clears `running_`, called by anyone or by the destructor. -/
def Stops (s : AsyncLogging) (e : Label) : Prop :=
  e = .stop ∧ s.owner.usable = true ∨ e = .dtorStop ∧ s.owner = .stopping

/-- The `append` of record number `i` returned before some `stop` was called. -/
def Due (i : Nat) (es : List Label) : Prop :=
  ∃ pre e, pre ++ [e] <+: es ∧ Stops (run step new pre) e ∧ Returned i pre

/-- `threadFunc` returns. -/
def Returns (s : AsyncLogging) (e : Label) : Prop :=
  e = .finish ∧ s.thread = .finalFlush

theorem flushed_finish {s : AsyncLogging} (h : s.thread = .finalFlush) :
    (s.step .finish).flushed = s.written := by
  simp only [step, h]

/-- The records up to number `i`. -/
def upTo (s : AsyncLogging) (i : Nat) : List Byte := bytesOf (s.records.take (i + 1))

/-- When `threadFunc` returns, what is due has been written and flushed. -/
def StopLosesNothing (es : List Label) : Prop :=
  AtEachStep (fun pre e => Returns (run step new pre) e →
    ∀ i, Due i pre → (run step new pre).upTo i <+: (run step new (pre ++ [e])).flushed) es

/-- Before an iteration, or past the last. -/
def ThreadFunc.betweenIterations : ThreadFunc → Bool
  | .notStarted => true
  | .entering => true
  | .test => true
  | .finalFlush => true
  | _ => false

/-- `stop` comes ahead of `start`, inside an iteration, or when all records whose
`append` has returned are written. -/
def TimelyStop (pre : List Label) (e : Label) : Prop :=
  Stops (run step new pre) e → (run step new pre).owner ≠ .created →
    (run step new pre).thread.betweenIterations = true →
      ∀ i, Returned i pre → (run step new pre).upTo i <+: (run step new pre).written

theorem Returned.mono {i : Nat} {pre es : List Label} (h : Returned i pre) (hpre : pre <+: es) :
    Returned i es := by
  rcases h with ⟨first, tid, hfirst, hcaller⟩
  exact ⟨first, tid, hfirst.trans hpre, hcaller⟩

/-! ## The numbers of the records -/

theorem records_step (s : AsyncLogging) (e : Label) : s.records <+: (s.step e).records := by
  refine covers.elim (P := fun s' => s.records <+: s'.records) (List.prefix_refl _) ?_
  intro s' hstep
  cases hstep with
  | append tid r hmutex hcaller howner => exact List.prefix_append _ _
  | swap hthread =>
    show s.records <+: s.swap.records
    rw [s.swap_apart.records]
  | recycle hthread =>
    show s.records <+: s.recycle.records
    rw [s.recycle_apart.records]
  | _ => exact List.prefix_refl _

theorem records_run (s : AsyncLogging) (es : List Label) :
    s.records <+: (run step s es).records := by
  induction es generalizing s with
  | nil => exact List.prefix_refl _
  | cons e es ih => exact (s.records_step e).trans (ih (s.step e))

theorem upTo_step {s : AsyncLogging} {i : Nat} (hi : i < s.records.length) (e : Label) :
    (s.step e).upTo i = s.upTo i := by
  rcases s.records_step e with ⟨later, hlater⟩
  rw [upTo, ← hlater, List.take_append_of_le_length hi, upTo]

theorem upTo_isPrefix (s : AsyncLogging) (i : Nat) : s.upTo i <+: bytesOf s.records := by
  refine ⟨bytesOf (s.records.drop (i + 1)), ?_⟩
  rw [upTo, bytesOf, bytesOf, ← List.flatMap_append, List.take_append_drop, bytesOf]

/-- The numbers the callers hold are numbers of records. -/
def Numbered (s : AsyncLogging) : Prop :=
  ∀ tid i, s.callers tid = some i → i < s.records.length

theorem Numbered.of_same {s s' : AsyncLogging} (h : s.Numbered)
    (hcallers : s'.callers = s.callers) (hrecords : s'.records = s.records) : s'.Numbered := by
  intro tid i hcaller
  rw [hcallers] at hcaller
  rw [hrecords]
  exact h tid i hcaller

theorem Numbered.step {s : AsyncLogging} (h : s.Numbered) (e : Label) : (s.step e).Numbered := by
  apply covers.elim h
  intro s' hstep
  cases hstep with
  | append tid r hmutex hcaller howner =>
    intro tid' i hi
    show i < (s.records ++ [r]).length
    rw [List.length_append, List.length_singleton]
    by_cases htid : tid' = tid
    · have hnew : some s.records.length = some i := by simpa [setCaller, htid] using hi
      rw [← Option.some_inj.mp hnew]
      exact Nat.lt_succ_self _
    · have hold : s.callers tid' = some i := by
        rw [← (s.put_apart r.bytes).callers]
        simpa [setCaller, htid] using hi
      exact Nat.lt_succ_of_lt (h tid' i hold)
  | appendReturn tid =>
    intro tid' i hi
    by_cases htid : tid' = tid
    · simp [setCaller, htid] at hi
    · exact h tid' i (by simpa [setCaller, htid] using hi)
  | swap hthread => exact h.of_same s.swap_apart.callers s.swap_apart.records
  | recycle hthread => exact h.of_same s.recycle_apart.callers s.recycle_apart.records
  | _ => exact h

theorem Returned.lt {i : Nat} {es : List Label} (h : Returned i es) :
    i < (run step new es).records.length := by
  rcases h with ⟨pre, tid, ⟨later, hlater⟩, hcaller⟩
  have hnew : new.Numbered := by simp [Numbered, new]
  have hnumbered := run_invariant Numbered (fun _ e h => h.step e) hnew pre
  have hlt := hnumbered tid i hcaller
  rw [← hlater, run_append, run_concat]
  have hstep := ((run step new pre).records_step (.appendReturn tid)).length_le
  have hrun := (records_run (step (run step new pre) (.appendReturn tid)) later).length_le
  omega

/-! ## What is still written -/

/-- What has been written when `running_` is tested next. -/
def ahead (s : AsyncLogging) : List Byte :=
  match s.thread with
  | .locking => s.written ++ s.unwritten
  | .waiting => s.written ++ s.unwritten
  | .swapping => s.written ++ s.unwritten
  | .writing rest => s.written ++ contents rest
  | _ => s.written

theorem ahead_of_between {s : AsyncLogging} (h : s.thread.betweenIterations = true) :
    s.ahead = s.written := by
  unfold ahead
  cases hthread : s.thread <;> simp [hthread, ThreadFunc.betweenIterations] at h ⊢

/-- The thread has taken all buffers, and nobody has been let in since. -/
def ThreadFunc.pastSwap : ThreadFunc → Bool
  | .writing _ => true
  | .recycling => true
  | .flushing => true
  | _ => false

theorem ThreadFunc.holdsMutex_of_pastSwap {t : ThreadFunc} (h : t.pastSwap = true) :
    t.holdsMutex = true := by
  cases t with
  | writing rest => rfl
  | recycling => rfl
  | flushing => rfl
  | _ => simp [pastSwap] at h

/-- Past the swap there are no bytes in `buffers_` and `currentBuffer_`. -/
structure Steady (s : AsyncLogging) : Prop where
  inv : s.Inv
  owned : s.Owned
  emptied : s.thread.pastSwap = true → contents (s.buffers ++ [s.currentBuffer]) = []

theorem new_steady : new.Steady := ⟨new_inv, new_owned, by simp [new, ThreadFunc.pastSwap]⟩

theorem Steady.step {s : AsyncLogging} (h : s.Steady) (e : Label) : (s.step e).Steady := by
  refine ⟨h.inv.step e, h.owned.step e, ?_⟩
  refine covers.elim (P := fun s' => s'.thread.pastSwap = true →
    contents (s'.buffers ++ [s'.currentBuffer]) = []) h.emptied ?_
  intro s' hstep
  cases hstep with
  | append tid r hmutex hcaller howner =>
    -- the lock is held from the swap on, so there is no append
    intro hpast
    have hpast' : s.thread.pastSwap = true := by
      rw [← (s.put_apart r.bytes).thread]
      exact hpast
    rw [ThreadFunc.holdsMutex_of_pastSwap hpast'] at hmutex
    simp at hmutex
  | appendReturn | start | stop | dtor | dtorStop | dtorEnd => exact h.emptied
  | swap hthread =>
    intro _
    have hlocals := h.inv.locals
    rw [hthread] at hlocals
    rw [swap_eq hlocals.2.2]
    simpa using h.inv.newEmpty1
  | writeEnd hthread | write _ _ hthread | writeNull _ hthread =>
    intro _
    exact h.emptied (by simp [hthread, ThreadFunc.pastSwap])
  | recycle hthread =>
    intro _
    have hlocals := h.inv.locals
    rw [hthread] at hlocals
    rcases recycle_spec hlocals h.inv.newEmpty1 h.inv.newEmpty2 with ⟨p, q, hrecycle, _⟩
    rw [hrecycle]
    exact h.emptied (by simp [hthread, ThreadFunc.pastSwap])
  | _ => simp [ThreadFunc.pastSwap]

/-- What is ahead stays ahead, whatever happens. -/
theorem ahead_step {s : AsyncLogging} (h : s.Steady) (e : Label) :
    s.ahead <+: (s.step e).ahead := by
  refine covers.elim (P := fun s' => s.ahead <+: s'.ahead) (List.prefix_refl _) ?_
  intro s' hstep
  cases hstep with
  | append tid r hmutex hcaller howner =>
    show s.ahead <+: (s.put r.bytes).ahead
    have hthread' := (s.put_apart r.bytes).thread
    have hwritten := (s.put_apart r.bytes).written
    cases hthread : s.thread with
    -- before the swap the record is ahead too
    | locking | waiting =>
      rw [hthread] at hthread'
      simp only [ahead, hthread, hthread', hwritten, unwritten_put h.inv, ← List.append_assoc]
      exact List.prefix_append _ _
    | swapping | writing | recycling | flushing => simp [hthread, ThreadFunc.holdsMutex] at hmutex
    | _ =>
      rw [hthread] at hthread'
      simp only [ahead, hthread, hthread', hwritten]
      exact List.prefix_refl _
  | appendReturn | start | stop | dtor | dtorStop | dtorEnd | writeNull =>
    exact List.prefix_refl _
  | startThread howner =>
    have hthread := h.owned.unstarted (Or.inr howner)
    simp [ahead, hthread]
  | enter hthread | testStopped hthread | flush hthread | finish hthread | writeEnd hthread =>
    simp [ahead, hthread, initLocals]
  | testRunning hthread =>
    rw [ahead_of_between (by rw [hthread]; rfl)]
    exact List.prefix_append _ _
  | lockEmpty hthread | lockFull hthread | wake hthread =>
    simp [ahead, hthread, unwritten, ThreadFunc.rest]
  | swap hthread =>
    -- what waited is now in `buffersToWrite`
    have hlocals := h.inv.locals
    rw [hthread] at hlocals
    rw [swap_eq hlocals.2.2]
    simp [ahead, hthread, unwritten, ThreadFunc.rest]
  | write buffer rest hthread => simp [ahead, hthread, content]
  | recycle hthread => simp [ahead, hthread, s.recycle_apart.written]

/-- Inside an iteration everything put down so far is ahead. -/
theorem ahead_inside {s : AsyncLogging} (h : s.Steady)
    (hconserved : s.written ++ s.unwritten = bytesOf s.records)
    (hinside : s.thread.betweenIterations = false) (hfinished : s.thread ≠ .finished) :
    s.ahead = bytesOf s.records := by
  cases hthread : s.thread with
  | locking | waiting | swapping =>
    simp only [ahead, hthread]
    exact hconserved
  | writing | recycling | flushing =>
    have hempty := h.emptied (by rw [hthread]; rfl)
    simpa [unwritten, hempty, hthread, ThreadFunc.rest, ahead] using hconserved
  | finished => exact absurd hthread hfinished
  | _ => simp [hthread, ThreadFunc.betweenIterations] at hinside

theorem run_steady (es : List Label) : (run step new es).Steady :=
  run_invariant Steady (fun _ e h => h.step e) new_steady es

theorem finished_step {s : AsyncLogging} (h : s.Owned) (hfinished : s.thread = .finished)
    (e : Label) : (s.step e).thread = .finished := by
  refine covers.elim (P := fun s' => s'.thread = .finished) hfinished ?_
  intro s' hstep
  cases hstep with
  | append tid r hmutex hcaller howner =>
    show (s.put r.bytes).thread = .finished
    rw [(s.put_apart r.bytes).thread]
    exact hfinished
  | appendReturn | start | stop | dtor | dtorStop | dtorEnd | writeNull => exact hfinished
  | startThread howner =>
    have hthread := h.unstarted (Or.inr howner)
    simp [hfinished] at hthread
  | enter hthread | testRunning hthread | testStopped hthread | lockEmpty hthread
  | lockFull hthread | wake hthread | swap hthread | writeEnd hthread | write _ _ hthread
  | recycle hthread | flush hthread | finish hthread =>
    simp [hfinished] at hthread

/-- At a timely `stop` everything returned is ahead. -/
theorem stop_ahead {es : List Label} {e : Label} (htimely : TimelyStop es e)
    (hstops : Stops (run step new es) e) (howner : (run step new es).owner ≠ .created)
    (hfinished : (run step new es).thread ≠ .finished) {i : Nat} (hreturned : Returned i es) :
    (run step new es).upTo i <+: (run step new es).ahead := by
  by_cases hbetween : (run step new es).thread.betweenIterations = true
  · rw [ahead_of_between hbetween]
    exact htimely hstops howner hbetween i hreturned
  · rw [ahead_inside (run_steady es) (run_conserved es) (by simpa using hbetween) hfinished]
    exact upTo_isPrefix _ i

/-- No `stop` counts: the thread has not been started, or it will go on. -/
def Untouched (s : AsyncLogging) : Prop :=
  s.thread = .notStarted ∧ s.owner ≠ .starting ∨ s.running = true

theorem running_step {s : AsyncLogging} {e : Label} (hrunning : s.running = true)
    (hstops : ¬ Stops s e) : (s.step e).running = true := by
  refine covers.elim (P := fun s' => s'.running = true) hrunning ?_
  intro s' hstep
  cases hstep with
  | append tid r hmutex hcaller howner => exact (s.put_apart r.bytes).running.trans hrunning
  | start howner => rfl
  | stop husable => exact absurd (Or.inl ⟨rfl, husable⟩) hstops
  | dtorStop howner => exact absurd (Or.inr ⟨rfl, howner⟩) hstops
  | swap hthread => exact s.swap_apart.running.trans hrunning
  | recycle hthread => exact s.recycle_apart.running.trans hrunning
  | _ => exact hrunning

theorem Untouched.step {s : AsyncLogging} (h : s.Untouched) {e : Label} (hstops : ¬ Stops s e) :
    (s.step e).Untouched := by
  rcases h with ⟨hthread, howner⟩ | hrunning
  · apply covers.elim (Or.inl ⟨hthread, howner⟩)
    intro s' hstep
    cases hstep with
    | append tid r hmutex hcaller hgone =>
      have hapart := s.put_apart r.bytes
      exact Or.inl ⟨hapart.thread.trans hthread, fun hstarting => howner (hapart.owner ▸ hstarting)⟩
    | appendReturn tid => exact Or.inl ⟨hthread, howner⟩
    | start hcreated => exact Or.inr rfl
    | startThread hstarting => exact absurd hstarting howner
    | stop husable => exact absurd (Or.inl ⟨rfl, husable⟩) hstops
    | dtor hlive =>
      left
      refine ⟨hthread, ?_⟩
      show (if s.running = true then Owner.stopping else .dying) ≠ .starting
      split <;> simp
    | dtorStop hstopping => exact absurd (Or.inr ⟨rfl, hstopping⟩) hstops
    | dtorEnd hdying => exact Or.inl ⟨hthread, by simp⟩
    | enter hpc | testRunning hpc | testStopped hpc | lockEmpty hpc | lockFull hpc | wake hpc
    | swap hpc | writeEnd hpc | write _ _ hpc | writeNull _ hpc | recycle hpc | flush hpc
    | finish hpc =>
      simp [hthread] at hpc
  · exact Or.inr (running_step hrunning hstops)

/-- The thread leaves its loop only with `running_` cleared, and nothing sets it
again. -/
theorem left_step {s : AsyncLogging} (howned : s.Owned)
    (h : s.thread = .finalFlush → s.running = false) (e : Label) :
    (s.step e).thread = .finalFlush → (s.step e).running = false := by
  refine covers.elim (P := fun s' => s'.thread = .finalFlush → s'.running = false) h ?_
  intro s' hstep hthread
  cases hstep with
  | append tid r hmutex hcaller howner =>
    have hapart := s.put_apart r.bytes
    exact hapart.running.trans (h (hapart.thread.symm.trans hthread))
  | start howner =>
    have hnot := howned.unstarted (Or.inl howner)
    have hthread' : s.thread = .finalFlush := hthread
    simp [hnot] at hthread'
  | stop husable => rfl
  | dtorStop howner => rfl
  | testStopped hpc hrunning => exact hrunning
  | appendReturn | dtor | dtorEnd | writeNull => exact h hthread
  | _ => simp at hthread

theorem finalFlush_stopped (es : List Label) (hthread : (run step new es).thread = .finalFlush) :
    ¬ (run step new es).Untouched := by
  have hboth := run_invariant
    (fun s : AsyncLogging => s.Owned ∧ (s.thread = .finalFlush → s.running = false))
    (fun s e h => ⟨h.1.step e, left_step h.1 h.2 e⟩) ⟨new_owned, by simp [new]⟩ es
  rintro (⟨hnot, _⟩ | hrunning)
  · simp [hthread] at hnot
  · simp [hboth.2 hthread] at hrunning

theorem due_concat {i : Nat} {es : List Label} {e : Label} :
    Due i (es ++ [e]) ↔ Due i es ∨ Stops (run step new es) e ∧ Returned i es :=
  exists_moment_concat

theorem Due.returned {i : Nat} {es : List Label} (h : Due i es) : Returned i es := by
  rcases h with ⟨pre, e, hpre, _, hreturned⟩
  exact hreturned.mono ((List.prefix_append pre [e]).trans hpre)

/-- Where every `stop` has been timely, what is due is ahead. -/
theorem due_ahead {es : List Label} (h : AtEachStep TimelyStop es) {i : Nat} (hdue : Due i es) :
    (run step new es).thread = .finished ∨ (run step new es).Untouched ∨
      (run step new es).upTo i <+: (run step new es).ahead := by
  induction es using List.reverseRecOn with
  | nil => exact absurd hdue not_exists_moment_nil
  | append_singleton es e ih =>
    rcases atEachStep_concat.mp h with ⟨hes, htimely⟩
    have hsteady := run_steady es
    have hreturned : Returned i es := by
      rcases due_concat.mp hdue with hearlier | ⟨_, hreturned⟩
      · exact hearlier.returned
      · exact hreturned
    rw [run_concat]
    by_cases hfinished : (run step new es).thread = .finished
    · exact Or.inl (finished_step hsteady.owned hfinished e)
    have hahead : (run step new es).upTo i <+: (run step new es).ahead →
        (step (run step new es) e).upTo i <+: (step (run step new es) e).ahead := by
      intro hold
      rw [upTo_step hreturned.lt]
      exact hold.trans (ahead_step hsteady e)
    by_cases hstops : Stops (run step new es) e
    · by_cases howner : (run step new es).owner = .created
      · -- ahead of `start`
        right
        left
        rcases hstops with ⟨rfl, husable⟩ | ⟨rfl, hstopping⟩
        · left
          have hthread := hsteady.owned.unstarted (Or.inl howner)
          simp [step, howner, hthread, Owner.usable]
        · simp [howner] at hstopping
      · exact Or.inr (Or.inr (hahead (stop_ahead htimely hstops howner hfinished hreturned)))
    · -- no new stop, so it was due before
      have hdue' : Due i es := by
        rcases due_concat.mp hdue with hearlier | ⟨hstops', _⟩
        · exact hearlier
        · exact absurd hstops' hstops
      -- the three cases are kept by this step
      rcases ih hes hdue' with hold | huntouched | hold
      · exact absurd hold hfinished
      · exact Or.inr (Or.inl (huntouched.step hstops))
      · exact Or.inr (Or.inr (hahead hold))

/-! ## Stops that come too late -/

theorem upTo_run {s : AsyncLogging} {i : Nat} (hi : i < s.records.length) (es : List Label) :
    (run step s es).upTo i = s.upTo i := by
  induction es generalizing s with
  | nil => rfl
  | cons e es ih =>
    have hi' := Nat.lt_of_lt_of_le hi (s.records_step e).length_le
    rw [run_cons, ih hi', upTo_step hi]

/-- With `running_` cleared between two iterations, the thread leaves without
writing anything more. -/
theorem leaves_without_writing {s : AsyncLogging} (hrunning : s.running = false)
    (hbetween : s.thread.betweenIterations = true)
    (hstarting : s.thread = .notStarted → s.owner = .starting) :
    ∃ es, (run step s es).thread = .finalFlush ∧ (run step s es).written = s.written := by
  cases hthread : s.thread with
  | notStarted =>
    refine ⟨[.startThread, .enter, .test], ?_⟩
    simp [step, hstarting hthread, hrunning, initLocals]
  | entering =>
    refine ⟨[.enter, .test], ?_⟩
    simp [step, hthread, hrunning, initLocals]
  | test =>
    refine ⟨[.test], ?_⟩
    simp [step, hthread, hrunning]
  | finalFlush => exact ⟨[], hthread, rfl⟩
  | _ => simp [hthread, ThreadFunc.betweenIterations] at hbetween

/-- What a `stop` changes. -/
theorem Stops.step {s : AsyncLogging} {e : Label} (h : s.Stops e) :
    (s.step e).running = false ∧ (s.step e).thread = s.thread ∧ (s.step e).written = s.written := by
  rcases h with ⟨rfl, husable⟩ | ⟨rfl, howner⟩
  · simp [AsyncLogging.step, husable]
  · simp [AsyncLogging.step, howner]

/-- After `created`, only a `stop` inside `start` finds the thread not started. -/
theorem Stops.starting {s : AsyncLogging} {e : Label} (h : s.Stops e) (howned : s.Owned)
    (hcreated : s.owner ≠ .created) (hthread : s.thread = .notStarted) :
    (s.step e).owner = .starting := by
  rcases h with ⟨rfl, husable⟩ | ⟨rfl, hstopping⟩
  · have hstarted : s.owner ≠ .started := fun howner => howned.started (Or.inl howner) hthread
    cases howner : s.owner with
    | starting => simp [AsyncLogging.step, howner, Owner.usable]
    | created => exact absurd howner hcreated
    | started => exact absurd howner hstarted
    | _ => simp [howner, Owner.usable] at husable
  · exact absurd hthread (howned.started (Or.inr hstopping))

theorem untimely_loses {es : List Label} {e : Label} (h : ¬ TimelyStop es e) :
    ∃ es', ¬ StopLosesNothing (es ++ e :: es') := by
  simp only [TimelyStop, Classical.not_imp, not_forall] at h
  rcases h with ⟨hstops, hcreated, hbetween, i, hreturned, hmissing⟩
  have howned := (run_steady es).owned
  rcases hstops.step with ⟨hrunning, hthread, hwritten⟩
  have hstarting : (step (run step new es) e).thread = .notStarted →
      (step (run step new es) e).owner = .starting := by
    intro hnot
    rw [hthread] at hnot
    exact hstops.starting howned hcreated hnot
  have hbetween' := hthread ▸ hbetween
  -- the thread goes straight to its last flush
  rcases leaves_without_writing hrunning hbetween' hstarting with ⟨es', hfinal, hsame⟩
  refine ⟨es' ++ [.finish], fun hloses => ?_⟩
  have hwhole : es ++ e :: (es' ++ [.finish]) = (es ++ [e] ++ es') ++ [.finish] := by simp
  rw [hwhole] at hloses
  have hrun : run step new (es ++ [e] ++ es') = run step (step (run step new es) e) es' := by
    rw [run_append, run_concat]
  have hdue : Due i (es ++ [e] ++ es') := ⟨es, e, List.prefix_append _ _, hstops, hreturned⟩
  have hkept := hloses _ _ (List.prefix_refl _) ⟨rfl, by rw [hrun]; exact hfinal⟩ i hdue
  -- nothing has been written since, and the record was not
  have hi := hreturned.lt
  have hi' := Nat.lt_of_lt_of_le hi ((run step new es).records_step e).length_le
  have hflushed : (run step new (es ++ [e] ++ es' ++ [.finish])).flushed =
      (run step new es).written := by
    rw [run_concat, hrun, flushed_finish hfinal, hsame, hwritten]
  rw [hflushed, hrun, upTo_run hi', upTo_step hi] at hkept
  exact hmissing hkept

/-- In every run whose stops are all timely, `threadFunc` returns with every
record written and flushed whose `append` returned before a `stop`; and every
run can be brought to lose one after a stop that is not timely. -/
theorem stop_loses_nothing (es : List Label) :
    (AtEachStep TimelyStop es → StopLosesNothing es) ∧
      ∀ e, ¬ TimelyStop es e → ∃ es', ¬ StopLosesNothing (es ++ e :: es') := by
  constructor
  · rintro h pre e hpre ⟨rfl, hthread⟩ i hdue
    have hbefore : AtEachStep TimelyStop pre := by
      intro first f hfirst
      exact h first f (hfirst.trans ((List.prefix_append pre [.finish]).trans hpre))
    rw [run_concat, flushed_finish hthread]
    -- at the last flush only what is written is ahead
    rcases due_ahead hbefore hdue with hfinished | huntouched | hahead
    · simp [hfinished] at hthread
    · exact absurd huntouched (finalFlush_stopped pre hthread)
    · rwa [ahead_of_between (by rw [hthread]; rfl)] at hahead
  · intro e h
    exact untimely_loses h

/-- A record of one byte. -/
def oneByte : Record where
  bytes := [65]
  short := by decide

/-- The record is there before the first iteration, and so is the stop. -/
def earlyStop : List Label :=
  [.start, .startThread, .append 1 oneByte, .appendReturn 1, .stop, .enter, .test]

theorem record_lost_at_stop : ¬ StopLosesNothing (earlyStop ++ [.finish]) := by
  intro h
  have hdue : Due 0 earlyStop :=
    ⟨earlyStop.take 4, .stop, ⟨earlyStop.drop 5, rfl⟩, Or.inl ⟨rfl, rfl⟩,
      earlyStop.take 3, 1, ⟨[], rfl⟩, rfl⟩
  have hkept := h earlyStop .finish (List.prefix_refl _) ⟨rfl, rfl⟩ 0 hdue
  exact absurd hkept (by decide)

end AsyncLogging

end EchoServer
