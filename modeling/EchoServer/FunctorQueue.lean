import EchoServer.EventLoop
import EchoServer.Lib.Fifo

/-!
# The functors of a loop are a queue

`queueInLoop` pushes under `mutex_`, `doPendingFunctors` swaps the whole vector
out and calls what it got. The rest of the batch and the vector are one queue:
a push enters it, the call of a functor leaves it, and the swap does nothing.

* `queueStep`: what a step can do to the queue, one constructor each;
* `simulates_queue`: the loop implements the abstract queue;
* `functors_exactly_once_fifo`: functors are called in the order of the pushes,
  once each, on the loop thread, and after the batch they find.
-/

namespace EchoServer

open Runs Fifo

variable {F : Type u}

namespace EventLoop

/-- The functors of the batch that have not been called. -/
def Pc.rest : Pc F → List F
  | .batch rest => rest
  | .executing rest => rest
  | _ => []

/-- What is queued and has not been called, in the order of the pushes. -/
def waiting (s : EventLoop F) : List F := s.pc.rest ++ s.pendingFunctors

/-- What a step makes of the queue of functors. -/
inductive QueueStep (s : EventLoop F) : Label F → EventLoop F → Prop where
  | other (e : Label F) (s' : EventLoop F) (hqueued : s'.queued = s.queued)
      (hexecuted : s'.executed = s.executed) (hwaiting : s'.waiting = s.waiting) :
      QueueStep s e s'
  | push (e : Label F) (s' : EventLoop F) (cb : F) (hqueued : s'.queued = s.queued ++ [cb])
      (hexecuted : s'.executed = s.executed) (hwaiting : s'.waiting = s.waiting ++ [cb]) :
      QueueStep s e s'
  | call (s' : EventLoop F) (cb : F) (rest : List F) (hqueueing : s.queueing = false)
      (hpc : s.pc = .batch (cb :: rest)) (hpc' : s'.pc = .executing rest)
      (hqueued : s'.queued = s.queued) (hexecuted : s'.executed = s.executed ++ [cb])
      (hpending : s'.pendingFunctors = s.pendingFunctors) : QueueStep s .call s'

theorem queueStep_refl (s : EventLoop F) (e : Label F) : QueueStep s e s := .other e s rfl rfl rfl

/-- A step leaves the queue alone, pushes one functor or calls the first one. -/
theorem queueStep (s : EventLoop F) (e : Label F) : QueueStep s e (s.step e) := by
  refine covers.elim (P := QueueStep s e) (queueStep_refl s e) ?_
  intro s' hstep
  cases hstep with
  | push tid cb hthread =>
    refine .push _ _ cb rfl rfl ?_
    simp [waiting, pushFunctor, setThread]
  | queueInLoop cb hidle huser =>
    refine .push _ _ cb rfl rfl ?_
    simp [waiting, pushFunctor]
  | call cb rest hidle hpc => exact .call _ cb rest hidle hpc rfl rfl rfl rfl
  | swap hidle hpc =>
    -- what was pending is the batch
    refine .other _ _ rfl rfl ?_
    simp [waiting, hpc, Pc.rest]
  | quit | wakeup | queueWakeup | queueSilent | quitInLoop => exact .other _ _ rfl rfl rfl
  | loop hidle hpc | testQuit hidle hpc | testGoOn hidle hpc | poll _ hidle hpc
  | handleRead hidle hpc | doPendingFunctors hidle hpc | «return» _ hidle hpc
  | endPendingFunctors hidle hpc =>
    refine .other _ _ rfl rfl ?_
    simp [waiting, hpc, Pc.rest]

/-! ## The abstract queue -/

/-- The queue `q` is the loop's functors: pushed, called and waiting. -/
structure Implements (s : EventLoop F) (q : Queue F) : Prop where
  entered : q.entered = s.queued
  left : q.left = s.executed
  waiting : q.waiting = s.waiting

theorem new_implements : (new : EventLoop F).Implements Queue.empty := ⟨rfl, rfl, rfl⟩

theorem simulates_queue : Simulates step (Implements (F := F)) := by
  intro s e q h
  have hstep := queueStep s e
  generalize s.step e = s' at hstep
  rcases h with ⟨hentered, hleft, hwaiting⟩
  cases hstep with
  | other _ _ hqueued hexecuted hsame =>
    exact ⟨.skip, hentered.trans hqueued.symm, hleft.trans hexecuted.symm,
      hwaiting.trans hsame.symm⟩
  | push _ _ cb hqueued hexecuted hpushed =>
    refine ⟨.enqueue [cb], ?_, hleft.trans hexecuted.symm, ?_⟩
    · rw [hqueued, ← hentered]
      rfl
    · rw [hpushed, ← hwaiting]
      rfl
  | call _ cb rest hqueueing hpc hpc' hqueued hexecuted hpending =>
    -- the functor called is the first one waiting
    have hfirst : q.waiting = cb :: (rest ++ s.pendingFunctors) := by
      rw [hwaiting, EventLoop.waiting, hpc]
      rfl
    refine ⟨.dequeue 1, hentered.trans hqueued.symm, ?_, ?_⟩
    · show q.left ++ q.waiting.take 1 = s'.executed
      rw [hexecuted, hfirst, hleft]
      rfl
    · show q.waiting.drop 1 = s'.waiting
      rw [hfirst, EventLoop.waiting, hpc', hpending]
      rfl

theorem run_implements {s : EventLoop F} {q : Queue F} (h : s.Implements q)
    (es : List (Label F)) : ∃ ops, (run step s es).Implements (q.run ops) :=
  simulates_queue.run h es

/-! ## Exactly once, first in first out -/

/-- The step pushes `cb`, as number `s.queued.length`. -/
def Queues (s : EventLoop F) (e : Label F) (cb : F) : Prop :=
  (s.step e).queued = s.queued ++ [cb]

/-- A step calls no functor, or the loop thread calls the next one of its batch. -/
def CallsOne (s : EventLoop F) (e : Label F) : Prop :=
  (s.step e).executed = s.executed ∨
    e = .call ∧ s.queueing = false ∧ ∃ cb rest, s.pc = .batch (cb :: rest) ∧
      (s.step e).executed = s.executed ++ [cb]

theorem callsOne (s : EventLoop F) (e : Label F) : s.CallsOne e := by
  unfold CallsOne
  have hstep := queueStep s e
  generalize s.step e = s' at hstep
  cases hstep with
  | other _ _ _ hexecuted => exact Or.inl hexecuted
  | push _ _ _ _ hexecuted => exact Or.inl hexecuted
  | call _ cb rest hqueueing hpc _ _ hexecuted =>
    exact Or.inr ⟨rfl, hqueueing, cb, rest, hpc, hexecuted⟩

/-- What the loop promises for a run. -/
structure ExactlyOnceFifo (es : List (Label F)) : Prop where
  /-- Called, not yet called of the batch, and pending: that is what was pushed. -/
  conserved : Always step new
    (fun s => s.executed ++ s.pc.rest ++ s.pendingFunctors = s.queued) es
  loopThread : EachStep step new CallsOne es
  /-- Of two pushes the earlier one has the lower number, and the functor with
  a number is the one that is called as this number. -/
  ordered : ∀ pre e cb mid e' cb', pre ++ e :: (mid ++ [e']) <+: es →
    Queues (run step new pre) e cb → Queues (run step new (pre ++ e :: mid)) e' cb' →
    (run step new pre).queued.length < (run step new (pre ++ e :: mid)).queued.length ∧
    ((run step new pre).queued.length < (run step new es).executed.length →
      (run step new es).executed[(run step new pre).queued.length]? = some cb) ∧
    ((run step new (pre ++ e :: mid)).queued.length < (run step new es).executed.length →
      (run step new es).executed[(run step new (pre ++ e :: mid)).queued.length]? = some cb')
  /-- Once a functor pushed from now on has been called, so has all of the
  present batch, and whatever else was pushed before. -/
  batchFirst : ∀ pre, pre <+: es →
    (run step new pre).queued.length < (run step new es).executed.length →
    (run step new pre).executed ++ (run step new pre).pc.rest <+: (run step new es).executed ∧
    (run step new pre).queued <+: (run step new es).executed

theorem run_conserved (es : List (Label F)) :
    (run step new es).executed ++ (run step new es).waiting = (run step new es).queued := by
  rcases run_implements new_implements es with ⟨ops, h⟩
  rw [← h.left, ← h.waiting, ← h.entered]
  exact (Queue.run _ ops).conserved

theorem executed_isPrefix (es : List (Label F)) :
    (run step new es).executed <+: (run step new es).queued :=
  ⟨_, run_conserved es⟩

theorem queued_isPrefix {pre es : List (Label F)} (hpre : pre <+: es) :
    (run step new pre).queued <+: (run step new es).queued := by
  rcases hpre with ⟨post, rfl⟩
  rcases run_implements new_implements pre with ⟨ops, h⟩
  rcases run_implements h post with ⟨ops', h'⟩
  rw [run_append, ← h.entered, ← h'.entered]
  exact Queue.entered_prefix_run _ ops'

/-- A functor keeps its number until it is called. -/
theorem executed_number {pre es : List (Label F)} {e : Label F} {cb : F}
    (hpre : pre ++ [e] <+: es) (hqueues : Queues (run step new pre) e cb)
    (hcalled : (run step new pre).queued.length < (run step new es).executed.length) :
    (run step new es).executed[(run step new pre).queued.length]? = some cb := by
  have hnumber : (run step new (pre ++ [e])).queued[(run step new pre).queued.length]? =
      some cb := by
    rw [run_concat, hqueues, List.getElem?_concat_length]
  rcases queued_isPrefix hpre with ⟨later, hlater⟩
  rcases executed_isPrefix es with ⟨left, hleft⟩
  have hlt : (run step new pre).queued.length < (run step new (pre ++ [e])).queued.length := by
    rw [run_concat, hqueues]
    simp
  calc (run step new es).executed[(run step new pre).queued.length]?
      = (run step new es).queued[(run step new pre).queued.length]? := by
        rw [← hleft, List.getElem?_append_left hcalled]
    _ = (run step new (pre ++ [e])).queued[(run step new pre).queued.length]? := by
        rw [← hlater, List.getElem?_append_left hlt]
    _ = some cb := hnumber

theorem overtakes_nothing {pre es : List (Label F)} (hpre : pre <+: es)
    (h : (run step new pre).queued.length < (run step new es).executed.length) :
    (run step new pre).queued <+: (run step new es).executed := by
  rcases hpre with ⟨post, rfl⟩
  rcases run_implements new_implements pre with ⟨ops, hbefore⟩
  rcases run_implements hbefore post with ⟨ops', hafter⟩
  rw [run_append] at h ⊢
  rw [← hbefore.entered, ← hafter.left] at h ⊢
  exact Queue.overtakes_nothing _ ops' (Nat.le_of_lt h)

/-- In every run the functors of a loop are called in the order in which they
took `mutex_`, once each, by the loop thread, batch by batch. -/
theorem functors_exactly_once_fifo (es : List (Label F)) : ExactlyOnceFifo es := by
  constructor
  · intro pre _
    show (run step new pre).executed ++ _ ++ _ = _
    rw [List.append_assoc]
    exact run_conserved pre
  · intro pre e _
    exact callsOne _ e
  · intro pre e cb mid e' cb' hes hfirst hsecond
    have hshort : pre ++ [e] <+: es := by
      refine List.IsPrefix.trans ?_ hes
      exact ⟨mid ++ [e'], by simp⟩
    have hlong : (pre ++ e :: mid) ++ [e'] <+: es := by simpa using hes
    have hgrown : pre ++ [e] <+: pre ++ e :: mid := ⟨mid, by simp⟩
    constructor
    · have hle := (queued_isPrefix hgrown).length_le
      rw [run_concat, hfirst, List.length_append, List.length_singleton] at hle
      omega
    · constructor
      · exact executed_number hshort hfirst
      · exact executed_number hlong hsecond
  · intro pre hpre hlt
    have hall := overtakes_nothing hpre hlt
    constructor
    · refine List.IsPrefix.trans ?_ hall
      exact ⟨(run step new pre).pendingFunctors, by rw [List.append_assoc]; exact run_conserved pre⟩
    · exact hall

end EventLoop

end EchoServer
