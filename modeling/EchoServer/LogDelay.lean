import EchoServer.LogStop

/-!
# How long a record waits

`threadFunc` holds `mutex_` from the swap to the flush, so the next flush after an
`append` has the record. Until then the thread goes through its loop at most once.

* `works`, `writes`: the steps of the thread that are counted;
* `Waits`: record number `n` has been put down, and not flushed;
* `record_waits_bounded`: every moment of every run.
-/

namespace EchoServer

open Runs

namespace AsyncLogging

/-- The thread gets on in `threadFunc`, buffers apart. -/
def works (s : AsyncLogging) (e : Label) : Bool :=
  match e, s.thread with
  | .enter, .entering => true
  | .test, .test => true
  | .lock, .locking => true
  | .wake, .waiting => true
  | .swap, .swapping => true
  | .write, .writing [] => true
  | .recycle, .recycling => true
  | .flush, .flushing => true
  | .finish, .finalFlush => true
  | _, _ => false

/-- A buffer is given to `LogFile::append`. -/
def writes (s : AsyncLogging) (e : Label) : Bool :=
  match e, s.thread with
  | .write, .writing (some _ :: _) => true
  | _, _ => false

/-- A record is put down. -/
def puts (s : AsyncLogging) (e : Label) : Bool :=
  match e with
  | .append tid _ =>
    decide (s.thread.holdsMutex = false ∧ s.callers tid = none ∧ s.owner ≠ .gone)
  | _ => false

/-- The steps to the end of the iteration. -/
def stepsLeft (s : AsyncLogging) : Nat :=
  match s.thread with
  | .notStarted => 8
  | .entering => 8
  | .test => 7
  | .locking => 6
  | .waiting => 5
  | .swapping => 4
  | .writing _ => 3
  | .recycling => 2
  | .flushing => 1
  | .finalFlush => 1
  | .finished => 0

/-- The buffers that are written in this iteration. -/
def buffersLeft (s : AsyncLogging) : Nat :=
  match s.thread with
  | .writing rest => rest.length
  | .recycling => 0
  | .flushing => 0
  | _ => s.buffers.length + 1

theorem stepsLeft_le (s : AsyncLogging) : s.stepsLeft ≤ 8 := by
  unfold stepsLeft
  split <;> decide

theorem buffersLeft_le (s : AsyncLogging) :
    s.buffersLeft ≤ s.thread.rest.length + s.buffers.length + 1 := by
  unfold buffersLeft
  split
  · rename_i rest hthread
    rw [hthread, ThreadFunc.rest]
    omega
  · exact Nat.zero_le _
  · exact Nat.zero_le _
  · omega

/-- The record with number `n` has not been flushed to its end. -/
def Unflushed (n : Nat) (s : AsyncLogging) : Prop := s.flushed.length < (s.upTo n).length

instance (n : Nat) (s : AsyncLogging) : Decidable (Unflushed n s) := by
  unfold Unflushed
  infer_instance

/-- Record number `n` has been put down, and not flushed. -/
structure Waits (n : Nat) (s : AsyncLogging) : Prop where
  steady : s.Steady
  stands : ∃ q, s.StandsFor q
  flushed : s.flushed <+: s.written
  put : n < s.records.length
  unflushed : Unflushed n s

/-- What has been flushed stays flushed. -/
structure FlushedStep (s s' : AsyncLogging) : Prop where
  grows : s.flushed <+: s'.flushed
  written : s'.flushed <+: s'.written

theorem FlushedStep.of_apart {s s' : AsyncLogging} (h : s.flushed <+: s.written)
    (hflushed : s'.flushed = s.flushed) (hwritten : s'.written = s.written) :
    FlushedStep s s' := by
  constructor
  · rw [hflushed]
  · rw [hflushed, hwritten]
    exact h

theorem flushedStep {s : AsyncLogging} (h : s.flushed <+: s.written) (e : Label) :
    FlushedStep s (s.step e) := by
  refine covers.elim (P := FlushedStep s) ⟨List.prefix_refl _, h⟩ ?_
  intro s' hstep
  cases hstep with
  | append tid r hmutex hcaller howner =>
    exact .of_apart h (s.put_apart r.bytes).flushed (s.put_apart r.bytes).written
  | swap hthread => exact .of_apart h s.swap_apart.flushed s.swap_apart.written
  | recycle hthread => exact .of_apart h s.recycle_apart.flushed s.recycle_apart.written
  | write buffer rest hthread => exact ⟨List.prefix_refl _, h.trans (List.prefix_append _ _)⟩
  | flush hthread => exact ⟨h, List.prefix_refl _⟩
  | finish hthread => exact ⟨h, List.prefix_refl _⟩
  | _ => exact ⟨List.prefix_refl _, h⟩

section
variable {s s' : AsyncLogging} {n : Nat} {e : Label}

/-- It waits until it is flushed. -/
theorem Waits.step (h : Waits n s) (h' : Unflushed n (s.step e)) : Waits n (s.step e) where
  steady := h.steady.step e
  stands := by
    rcases h.stands with ⟨q, hq⟩
    rcases simulates s e q hq with ⟨op, hop⟩
    exact ⟨_, hop⟩
  flushed := (flushedStep h.flushed e).written
  put := Nat.lt_of_lt_of_le h.put (s.records_step e).length_le
  unflushed := h'

theorem Waits.conserved (h : Waits n s) : s.written ++ s.unwritten = bytesOf s.records := by
  rcases h.stands with ⟨q, hq⟩
  rw [← hq.left, ← hq.waiting, ← hq.entered]
  exact q.conserved

/-- The thread flushes all records. -/
theorem Waits.le_written (h : Waits n s) (hthread : s.thread = .flushing) :
    (s.upTo n).length ≤ s.written.length := by
  have hahead := ahead_inside h.steady h.conserved (by rw [hthread]; rfl) (by simp [hthread])
  have hwritten : s.ahead = s.written := by
    simp only [ahead, hthread]
  rw [← hwritten, hahead]
  exact (s.upTo_isPrefix n).length_le

theorem stepsLeft_step (h : Waits n s) (hstep : Step s e s') (h' : Unflushed n s') :
    (s.works e).toNat + s'.stepsLeft ≤ s.stepsLeft := by
  cases hstep with
  | append tid r hmutex hcaller howner =>
    show (s.works (.append tid r)).toNat + (s.put r.bytes).stepsLeft ≤ _
    simp only [stepsLeft, (s.put_apart r.bytes).thread, works]
    simp
  | appendReturn | start | stop | dtor | dtorStop | dtorEnd => exact Nat.le_of_eq (Nat.zero_add _)
  | startThread howner =>
    have hthread := h.steady.owned.unstarted (Or.inr howner)
    simp [works, stepsLeft, hthread]
  | flush hthread =>
    have hwritten := h.le_written hthread
    exact absurd h' (Nat.not_lt.mpr hwritten)
  | recycle hthread => simp [works, stepsLeft, hthread]
  | swap hthread => simp [works, stepsLeft, hthread]
  | enter hthread | testRunning hthread | testStopped hthread | lockEmpty hthread
  | lockFull hthread | wake hthread | writeEnd hthread | write _ _ hthread
  | writeNull _ hthread | finish hthread => simp [works, stepsLeft, hthread]

/-- A record takes a new buffer if it does not fit. -/
theorem length_buffers_put_le (s : AsyncLogging) (data : List Byte) :
    (s.put data).buffers.length ≤ s.buffers.length + 1 := by
  unfold put
  split
  · exact Nat.le_succ _
  · split
    · exact Nat.le_succ _
    · simp

theorem buffersLeft_step (h : Waits n s) (hstep : Step s e s') (h' : Unflushed n s') :
    (s.writes e).toNat + s'.buffersLeft ≤ s.buffersLeft + (s.puts e).toNat := by
  cases hstep with
  | append tid r hmutex hcaller howner =>
    have hthread : (s.put r.bytes).thread = s.thread := (s.put_apart r.bytes).thread
    have hputs : s.puts (.append tid r) = true := decide_eq_true ⟨hmutex, hcaller, howner⟩
    have hbuffers := s.length_buffers_put_le r.bytes
    show (s.writes (.append tid r)).toNat + (s.put r.bytes).buffersLeft ≤ _
    rw [hputs]
    simp only [buffersLeft, hthread, writes, Bool.toNat_false, Bool.toNat_true]
    split
    · omega
    · omega
    · omega
    · omega
  | appendReturn | start | stop | dtor | dtorStop | dtorEnd => exact Nat.le_of_eq (Nat.zero_add _)
  | startThread howner =>
    have hthread := h.steady.owned.unstarted (Or.inr howner)
    simp [writes, puts, buffersLeft, hthread]
  | flush hthread =>
    have hwritten := h.le_written hthread
    exact absurd h' (Nat.not_lt.mpr hwritten)
  | recycle hthread => simp [writes, puts, buffersLeft, hthread]
  | swap hthread =>
    have hlocals := h.steady.inv.locals
    rw [hthread] at hlocals
    rw [swap_eq hlocals.2.2]
    simp [writes, puts, buffersLeft, hthread]
  | write buffer rest hthread =>
    simp [writes, puts, buffersLeft, hthread]
    omega
  | enter hthread | testRunning hthread | testStopped hthread | lockEmpty hthread
  | lockFull hthread | wake hthread | writeEnd hthread
  | writeNull _ hthread | finish hthread => simp [writes, puts, buffersLeft, hthread, initLocals]

end

/-- A step that is counted is taken. -/
theorem thread_step_of_works {s : AsyncLogging} {e : Label} (h : s.works e = true) :
    (s.step e).thread ≠ s.thread := by
  unfold works at h
  split at h
  case h_2 hthread =>
    simp only [step, hthread]
    split <;> simp
  case h_3 hthread =>
    simp only [step, hthread]
    split <;> simp
  case h_10 => cases h
  all_goals
    rename_i hthread
    simp [step, hthread]

theorem writes_eq_true {s : AsyncLogging} {e : Label} (h : s.writes e = true) :
    e = .write ∧ ∃ buffer rest, s.thread = .writing (some buffer :: rest) := by
  unfold writes at h
  split at h
  · rename_i buffer rest hthread
    exact ⟨rfl, buffer, rest, hthread⟩
  · cases h

theorem thread_step_of_writes {s : AsyncLogging} {e : Label} (h : s.writes e = true) :
    (s.step e).thread ≠ s.thread := by
  rcases writes_eq_true h with ⟨rfl, buffer, rest, hthread⟩
  simp [step, hthread]

theorem flushed_run {s : AsyncLogging} (h : s.flushed <+: s.written) (es : List Label) :
    FlushedStep s (run step s es) := by
  induction es generalizing s with
  | nil => exact ⟨List.prefix_refl _, h⟩
  | cons e es ih =>
    have hfirst := flushedStep h e
    have hrest := ih hfirst.written
    exact ⟨hfirst.grows.trans hrest.grows, hrest.written⟩

/-- What is not flushed at the end has not been flushed before. -/
theorem unflushed_of_run {s : AsyncLogging} {n : Nat} (h : s.flushed <+: s.written)
    (hput : n < s.records.length) {es : List Label} (hrun : Unflushed n (run step s es)) :
    Unflushed n s := by
  have hgrows := (flushed_run h es).grows.length_le
  unfold Unflushed at hrun ⊢
  rw [upTo_run hput] at hrun
  exact Nat.lt_of_le_of_lt hgrows hrun

/-- While record number `n` waits, the counted steps use up what is left of them and what
is put down. -/
theorem countSteps_le_left {mark more : AsyncLogging → Label → Bool} {left : AsyncLogging → Nat}
    {n : Nat} (hmark : ∀ s e, mark s e = true → (s.step e).thread ≠ s.thread)
    (hleft : ∀ s e s', Waits n s → Step s e s' → Unflushed n s' →
      (mark s e).toNat + left s' ≤ left s + (more s e).toNat)
    {s : AsyncLogging} (h : Waits n s) {es : List Label} (hwaits : Unflushed n (run step s es)) :
    countSteps step mark s es ≤ left s + countSteps step more s es := by
  apply countSteps_le fun s es b => Waits n s ∧ Unflushed n (run step s es) ∧
    left s + countSteps step more s es ≤ b
  · rintro s e es b ⟨h, hwaits, hle⟩
    rw [run_cons] at hwaits
    have hput := Nat.lt_of_lt_of_le h.put (s.records_step e).length_le
    have h' := unflushed_of_run (flushedStep h.flushed e).written hput hwaits
    refine ⟨left (s.step e) + countSteps step more (s.step e) es, ?_, h.step h', hwaits,
      Nat.le_refl _⟩
    refine Nat.le_trans ?_ hle
    rw [countSteps]
    rcases step_cases s e with hstutter | hstep
    · have hunmarked : mark s e = false := by
        by_contra hmarked
        exact hmark s e (by simpa using hmarked) (by rw [hstutter])
      rw [hunmarked, hstutter, Bool.toNat_false]
      omega
    · have hstep' := hleft s e _ h hstep h'
      omega
  · exact ⟨h, hwaits, Nat.le_refl _⟩

/-- A record that has been put down is flushed before the thread has taken more than eight
steps besides the buffers it writes, and these are the ones there were and one more for
each record put down meanwhile. -/
theorem record_waits_bounded (pre mid : List Label) (n : Nat)
    (hput : n < (run step new pre).records.length)
    (hwaits : Unflushed n (run step new (pre ++ mid))) :
    countSteps step works (run step new pre) mid ≤ 8 ∧
      countSteps step writes (run step new pre) mid ≤
        (run step new pre).thread.rest.length + (run step new pre).buffers.length + 1 +
          countSteps step puts (run step new pre) mid := by
  rw [run_append] at hwaits
  have hflushed : (run step new pre).flushed <+: (run step new pre).written :=
    (flushed_run (List.prefix_refl _) pre).written
  rcases simulates.run new_standsFor pre with ⟨ops, hstands⟩
  have h : Waits n (run step new pre) :=
    ⟨run_steady pre, ⟨_, hstands⟩, hflushed, hput, unflushed_of_run hflushed hput hwaits⟩
  constructor
  · have hle : countSteps step works (run step new pre) mid ≤ (run step new pre).stepsLeft +
        countSteps step (fun _ _ => false) (run step new pre) mid :=
      countSteps_le_left (fun _ _ => thread_step_of_works)
        (fun s e s' hs hstep h' => stepsLeft_step hs hstep h') h hwaits
    rw [countSteps_false] at hle
    exact hle.trans (run step new pre).stepsLeft_le
  · have hle : countSteps step writes (run step new pre) mid ≤ (run step new pre).buffersLeft +
        countSteps step puts (run step new pre) mid :=
      countSteps_le_left (fun _ _ => thread_step_of_writes)
        (fun s e s' hs hstep h' => buffersLeft_step hs hstep h') h hwaits
    have hbuffers := (run step new pre).buffersLeft_le
    omega

/-- The record comes while the thread is before its loop. -/
def putEarly : List Label := [.start, .startThread, .append 1 oneByte]

def firstIteration : List Label :=
  [.enter, .test, .appendReturn 1, .lock, .append 2 oneByte, .wake, .swap, .write, .write, .recycle]

theorem record_waits_bounded_early :
    countSteps step works (run step new putEarly) firstIteration ≤ 8 ∧
      countSteps step writes (run step new putEarly) firstIteration ≤
        (run step new putEarly).thread.rest.length + (run step new putEarly).buffers.length + 1 +
          countSteps step puts (run step new putEarly) firstIteration :=
  record_waits_bounded putEarly firstIteration 0 (by decide) (by decide +kernel)

end AsyncLogging

end EchoServer
