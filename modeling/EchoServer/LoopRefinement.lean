import EchoServer.FunctorQueue
import EchoServer.ServerFrames

/-!
# The loops of a server are EventLoops

In the server a loop is a phase and a list of pending functors; `wakeupFd_`,
`quit_` and the tests of `loop()` are left out. Every run of the server is, for each
of its loops, a run of an `EventLoop` with the same functors pending and the same
batch: what the server leaves out can always be put in.

* `LoopMove`, `step_move`: what one step does to one loop;
* `Refines`, `Refines.step`: the matching steps of the `EventLoop`;
* `loops_are_event_loops`: every run, and each functor of a loop exactly once and in
  order.
-/

namespace EchoServer

open Runs

/-! ## Pushes of other threads -/

namespace EventLoop

variable {F : Type u}

/-- A thread pushes `fs` one after the other, and wakes the loop up each time. -/
def pushAll (fs : List F) : List (Label F) := fs.flatMap fun f => [.push 0 f, .wakeup 0]

/-- No thread is inside `queueInLoop` or `quit`. -/
structure Quiet (t : EventLoop F) : Prop where
  queueing : t.queueing = false
  idle : ∀ tid, t.threads tid = .idle

/-- `t'` is `t` with `fs` pushed. -/
structure Pushed (t t' : EventLoop F) (fs : List F) : Prop where
  quiet : t'.Quiet
  pc : t'.pc = t.pc
  quit : t'.quit = t.quit
  pending : t'.pendingFunctors = t.pendingFunctors ++ fs
  queued : t'.queued = t.queued ++ fs
  executed : t'.executed = t.executed

theorem run_pushAll {t : EventLoop F} (h : t.Quiet) (fs : List F) :
    Pushed t (run step t (pushAll fs)) fs := by
  induction fs generalizing t with
  | nil => exact ⟨h, rfl, rfl, by simp [pushAll, run], by simp [pushAll, run], rfl⟩
  | cons f fs ih =>
    have hidle : (Function.update t.threads 0 .pushed) 0 ≠ Thread.idle := by simp
    have hpushed : run step t [.push 0 f, .wakeup 0] =
        (((t.pushFunctor f).setThread 0 .pushed).wakeup).setThread 0 .idle := by
      show step (step t (.push 0 f)) (.wakeup 0) = _
      rw [step, if_pos (h.idle 0), step]
      exact if_neg hidle
    have hquiet : (run step t [.push 0 f, .wakeup 0]).Quiet := by
      rw [hpushed]
      refine ⟨h.queueing, ?_⟩
      intro tid
      by_cases htid : tid = 0
      · simp [setThread, htid]
      · simpa [setThread, wakeup, pushFunctor, htid] using h.idle tid
    have hrest := ih hquiet
    have hrun : run step t (pushAll (f :: fs)) =
        run step (run step t [.push 0 f, .wakeup 0]) (pushAll fs) := by
      rw [← run_append]
      rfl
    rw [hrun]
    constructor
    · exact hrest.quiet
    · rw [hrest.pc, hpushed]
      rfl
    · rw [hrest.quit, hpushed]
      rfl
    · rw [hrest.pending, hpushed]
      show t.pendingFunctors ++ [f] ++ fs = _
      rw [List.append_assoc]
      rfl
    · rw [hrest.queued, hpushed]
      show t.queued ++ [f] ++ fs = _
      rw [List.append_assoc]
      rfl
    · rw [hrest.executed, hpushed]
      rfl

end EventLoop

/-! ## What a step does to one loop -/

namespace Server

variable {k : Nat}

/-- What the step adds to the functors of loop `ℓ`. -/
def queues (ℓ : Fin (k + 1)) (s : Server k) (e : Label k) : List BoundFunctor :=
  ((s.step e).loops ℓ).pending.drop (s.loops ℓ).pending.length

/-- The functor that loop `ℓ` takes from its batch in the step. -/
def executes (ℓ : Fin (k + 1)) (s : Server k) : Label k → List BoundFunctor
  | .loop ℓ' (.functor _ _) =>
    if ℓ' = ℓ ∧ s.LoopFree ℓ then (s.loops ℓ).phase.rest.take 1 else []
  | _ => []

/-- What a step can do to a loop: `queued` is what it adds to the functors, `executed`
what it takes from the batch. -/
inductive LoopMove (l l' : ServerLoop) : (queued executed : List BoundFunctor) → Prop where
  | stay (queued : List BoundFunctor)
      (hphase : l'.phase = l.phase ∨ l.phase.inHandlers = true ∧ l'.phase.inHandlers = true)
      (hpending : l'.pending = l.pending ++ queued) : LoopMove l l' queued []
  | poll (hphase : l.phase = .polling) (hphase' : l'.phase.inHandlers = true)
      (hpending : l'.pending = l.pending) : LoopMove l l' [] []
  | startFunctors (hphase : l.phase = .handlers [])
      (hphase' : l'.phase = .functors [] l.pending) (hpending : l'.pending = []) :
      LoopMove l l' [] []
  | functor (done rest : List BoundFunctor) (f : BoundFunctor) (queued : List BoundFunctor)
      (hphase : l.phase = .functors done (f :: rest))
      (hphase' : l'.phase = .functors (done ++ [f]) rest)
      (hpending : l'.pending = l.pending ++ queued) : LoopMove l l' queued [f]
  | endFunctors (done : List BoundFunctor) (hphase : l.phase = .functors done [])
      (hphase' : l'.phase = .polling) (hpending : l'.pending = l.pending) : LoopMove l l' [] []
  | exit (hphase : l.phase = .polling) (hphase' : l'.phase = .exited)
      (hpending : l'.pending = l.pending) : LoopMove l l' [] []
  | destroy (hphase : l.phase = .exited) (hphase' : l'.phase = .exited)
      (hpending : l'.pending = []) : LoopMove l l' [] []

/-- Functors have only been added. -/
def Grows (s s' : Server k) : Prop :=
  ∀ ℓ, (s.loops ℓ).pending <+: (s'.loops ℓ).pending

theorem Grows.refl (s : Server k) : Grows s s := fun _ => List.prefix_refl _

theorem Grows.trans {s t u : Server k} (h : Grows s t) (h' : Grows t u) : Grows s u :=
  fun ℓ => (h ℓ).trans (h' ℓ)

theorem setPhase_pending (s : Server k) (ℓ : Fin (k + 1)) (p : Phase) (ℓ' : Fin (k + 1)) :
    ((s.setPhase ℓ p).loops ℓ').pending = (s.loops ℓ').pending := by
  by_cases hℓ : ℓ' = ℓ
  · rw [hℓ, setPhase, setLoop_loops_self]
  · rw [setPhase, setLoop_loops_ne s _ hℓ]

theorem setPhase_grows (s : Server k) (ℓ : Fin (k + 1)) (p : Phase) : Grows s (s.setPhase ℓ p) := by
  intro ℓ'
  rw [setPhase_pending]

theorem queueInLoop_grows (s : Server k) (ℓ : Fin (k + 1)) (f : BoundFunctor) :
    Grows s (s.queueInLoop ℓ f) := by
  intro ℓ'
  by_cases hℓ : ℓ' = ℓ
  · rw [hℓ, queueInLoop, setLoop_loops_self]
    exact List.prefix_append _ _
  · rw [queueInLoop, setLoop_loops_ne s _ hℓ]

theorem onConn_grows (s : Server k) (c : ConnId) (op : Conn → Conn) : Grows s (s.onConn c op) := by
  intro ℓ
  cases hconn : s.conns c with
  | none => rw [onConn_of_none hconn]
  | some sc =>
    rcases (onConn_cases hconn op).pending ℓ with ⟨queued, hpending, _⟩
    rw [store_pending] at hpending
    exact ⟨queued, hpending.symm⟩

theorem removeConnectionInLoop_grows (s : Server k) (c : ConnId) :
    Grows s (s.removeConnectionInLoop c) := by
  unfold removeConnectionInLoop
  split
  · exact queueInLoop_grows (s.eraseConnection _) _ _
  · exact Grows.refl s

theorem execute_grows (s : Server k) (f : BoundFunctor) (mem : Nat → Byte) (a : Conn.Answers) :
    Grows s (s.execute f mem a) := by
  unfold execute call
  split
  · split
    · exact onConn_grows s _ _
    · exact onConn_grows s _ _
    · exact onConn_grows s _ _
    · exact onConn_grows s _ _
    · exact removeConnectionInLoop_grows s _
    · exact Grows.refl s
    · exact Grows.refl s
    · exact Grows.refl s
  · exact Grows.refl s

theorem newConnection_grows (s : Server k) (fd : Nat) (ioLoop : Fin (k + 1)) (wc hw : Bool)
    (mark : Nat) (us : List UserCall) : Grows s (s.newConnection fd ioLoop wc hw mark us) := by
  unfold newConnection
  split
  · exact onConn_grows (s.addConnection fd ioLoop wc hw mark) _ _
  · exact queueInLoop_grows (s.addConnection fd ioLoop wc hw mark) _ _

theorem destroyConnection_grows (s : Server k) (name : List Char) (c : ConnId)
    (sc : ServerConn k) (us : List UserCall) : Grows s (s.destroyConnection name c sc us) := by
  unfold destroyConnection
  split
  · exact onConn_grows (s.eraseConnection name) _ _
  · exact queueInLoop_grows (s.eraseConnection name) _ _

theorem queueForConn_grows (s : Server k) (f : BoundFunctor) : Grows s (s.queueForConn f) := by
  unfold queueForConn
  split
  · exact queueInLoop_grows s _ _
  · exact Grows.refl s

theorem storeDisconnecting_grows (s : Server k) (c : ConnId) :
    Grows s (s.storeDisconnecting c) := by
  unfold storeDisconnecting
  split
  · exact Grows.refl s
  · exact Grows.refl s

section
variable {s s' : Server k} {ℓ : Fin (k + 1)}

/-- A loop whose phase stays gets what is pushed. -/
theorem move_of_grows (hgrows : Grows s s')
    (hphase : (s'.loops ℓ).phase = (s.loops ℓ).phase ∨
      (s.loops ℓ).phase.inHandlers = true ∧ (s'.loops ℓ).phase.inHandlers = true) :
    LoopMove (s.loops ℓ) (s'.loops ℓ)
      ((s'.loops ℓ).pending.drop (s.loops ℓ).pending.length) [] := by
  rcases hgrows ℓ with ⟨queued, hpending⟩
  refine .stay _ hphase ?_
  rw [← hpending, List.drop_left]

end

theorem setPhase_phase (s : Server k) (ℓ : Fin (k + 1)) (p : Phase) :
    ((s.setPhase ℓ p).loops ℓ).phase = p := by
  rw [setPhase, setLoop_loops_self]

/-- A step of the loop's own thread. -/
theorem LoopStep.move {s s' : Server k} {ℓ : Fin (k + 1)} {e : LoopLabel} (h : LoopStep s ℓ e s')
    (hfree : s.LoopFree ℓ) : LoopMove (s.loops ℓ) (s'.loops ℓ)
      ((s'.loops ℓ).pending.drop (s.loops ℓ).pending.length) (executes ℓ s (.loop ℓ e)) := by
  cases h with
  | poll ready hphase =>
    rw [setPhase_pending, List.drop_length]
    refine .poll hphase ?_ (setPhase_pending s ℓ _ ℓ)
    rw [setPhase_phase]
    rfl
  | handle c revents active hphase hheld =>
    refine move_of_grows (setPhase_grows s ℓ _) (Or.inr ⟨by rw [hphase]; rfl, ?_⟩)
    rw [setPhase_phase]
    rfl
  | handleDead c revents active hphase hdead =>
    refine move_of_grows (setPhase_grows s ℓ _) (Or.inr ⟨by rw [hphase]; rfl, ?_⟩)
    rw [setPhase_phase]
    rfl
  | part c p rest active a hphase =>
    refine move_of_grows ((setPhase_grows s ℓ _).trans (onConn_grows _ _ _))
      (Or.inr ⟨by rw [hphase]; rfl, ?_⟩)
    rw [onConn_phase, setPhase_phase]
    rfl
  | handled c active hphase =>
    refine move_of_grows (setPhase_grows s ℓ _) (Or.inr ⟨by rw [hphase]; rfl, ?_⟩)
    rw [setPhase_phase]
    rfl
  | startFunctors hphase =>
    rw [setLoop_loops_self]
    have hnone : ([] : List BoundFunctor).drop (s.loops ℓ).pending.length = [] := List.drop_nil
    rw [hnone]
    exact .startFunctors hphase rfl rfl
  | functor done rest f mem a hphase =>
    have hexecutes : executes ℓ s (.loop ℓ (.functor mem a)) = [f] := by
      rw [executes, if_pos ⟨rfl, hfree⟩, hphase]
      rfl
    rw [hexecutes]
    rcases ((setPhase_grows s ℓ (.functors (done ++ [f]) rest)).trans
      (execute_grows _ f mem a)) ℓ with ⟨queued, hpending⟩
    refine .functor done rest f _ hphase ?_ ?_
    · rw [execute_phase, setPhase_phase]
    · rw [← hpending, List.drop_left]
  | endFunctors done hphase =>
    rw [setPhase_pending, List.drop_length]
    exact .endFunctors done hphase (setPhase_phase s ℓ _) (setPhase_pending s ℓ _ ℓ)
  | userCall c u hpolling hexited hlives =>
    exact move_of_grows (onConn_grows s c _) (Or.inl (onConn_phase s c _ ℓ))
  | exit hphase =>
    rw [setPhase_pending, List.drop_length]
    exact .exit hphase (setPhase_phase s ℓ _) (setPhase_pending s ℓ _ ℓ)

/-- The steps of another loop push at most. -/
theorem LoopStep.grows_ne {s s' : Server k} {ℓ ℓ' : Fin (k + 1)} {e : LoopLabel}
    (h : LoopStep s ℓ' e s') (hne : ℓ ≠ ℓ') :
    (s.loops ℓ).pending <+: (s'.loops ℓ).pending := by
  cases h with
  | part c p rest active a hphase =>
    exact ((setPhase_grows s ℓ' _).trans (onConn_grows _ _ _)) ℓ
  | startFunctors hphase => rw [setLoop_loops_ne s _ hne]
  | functor done rest f mem a hphase =>
    exact ((setPhase_grows s ℓ' _).trans (execute_grows _ _ _ _)) ℓ
  | userCall c u hpolling hexited hlives => exact onConn_grows s c _ ℓ
  | _ => exact setPhase_grows s ℓ' _ ℓ

theorem executes_of_ne {s : Server k} {ℓ ℓ' : Fin (k + 1)} (hne : ℓ ≠ ℓ') (e : LoopLabel) :
    executes ℓ s (.loop ℓ' e) = [] := by
  cases e with
  | functor mem a => exact if_neg fun h => hne h.1.symm
  | _ => rfl

/-- A step that is not enabled takes no functor. -/
theorem executes_of_stutter {s : Server k} {ℓ : Fin (k + 1)} {e : Label k} (h : s.step e = s) :
    executes ℓ s e = [] := by
  unfold executes
  split
  · rename_i ℓ' mem a
    split
    · rename_i hown
      rcases hown with ⟨rfl, hfree⟩
      cases hphase : (s.loops ℓ').phase with
      | functors done rest =>
        cases rest with
        | nil => rfl
        | cons f rest =>
          -- the functor would have left the batch
          have hstep : s.step (.loop ℓ' (.functor mem a)) =
              (s.setPhase ℓ' (.functors (done ++ [f]) rest)).execute f mem a := by
            simp only [step, if_pos hfree, loopStep, hphase]
          have hafter : ((s.step (.loop ℓ' (.functor mem a))).loops ℓ').phase =
              .functors (done ++ [f]) rest := by
            rw [hstep, execute_phase, setPhase_phase]
          rw [h, hphase] at hafter
          simp at hafter
      | _ => rfl
    · rfl
  · rfl

theorem step_move (s : Server k) (e : Label k) (ℓ : Fin (k + 1)) :
    LoopMove (s.loops ℓ) ((s.step e).loops ℓ) (queues ℓ s e) (executes ℓ s e) := by
  unfold queues
  rcases step_cases s e with hstutter | hstep
  · rw [executes_of_stutter hstutter, hstutter]
    exact move_of_grows (Grows.refl s) (Or.inl rfl)
  generalize s.step e = s' at hstep
  cases hstep with
  | loop ℓ' e hfree hstep =>
    by_cases hℓ : ℓ = ℓ'
    · subst hℓ
      exact hstep.move hfree
    · rw [executes_of_ne hℓ]
      rcases hstep.grows_ne hℓ with ⟨queued, hpending⟩
      refine .stay _ (Or.inl (hstep.phase_ne hℓ)) ?_
      rw [← hpending, List.drop_left]
  | accept fd ioLoop wc hw mark us haccept =>
    exact move_of_grows (newConnection_grows s _ _ _ _ _ _)
      (Or.inl (newConnection_phase s _ _ _ _ _ _ ℓ))
  | destroyLoop ℓ' hphase =>
    by_cases hℓ : ℓ = ℓ'
    · subst hℓ
      rw [setLoop_loops_self]
      have hnone : ([] : List BoundFunctor).drop (s.loops ℓ).pending.length = [] := List.drop_nil
      rw [hnone]
      exact .destroy hphase hphase rfl
    · rw [setLoop_loops_ne s _ hℓ, List.drop_length]
      exact .stay [] (Or.inl rfl) (List.append_nil _).symm
  | destroyConn name us c sc hlife hlookup hconn =>
    exact move_of_grows (destroyConnection_grows s _ _ _ _)
      (Or.inl (destroyConnection_phase s _ _ _ _ ℓ))
  | sendQueue tid c buf hcall =>
    exact move_of_grows (queueForConn_grows s _) (Or.inl (queueForConn_phase s _ ℓ))
  | shutdownStore tid c hcall =>
    exact move_of_grows (storeDisconnecting_grows s c) (Or.inl (storeDisconnecting_phase s c ℓ))
  | shutdownQueue tid c hcall =>
    exact move_of_grows (queueForConn_grows s _) (Or.inl (queueForConn_phase s _ ℓ))
  | dtor | dtorEnd | hold | drop | send | shutdown =>
    exact move_of_grows (Grows.refl s) (Or.inl rfl)

/-! ## The EventLoop of a loop -/

/-- Where the loop thread stands in `t` when it stands in the phase `p`. -/
def StandsIn (t : EventLoop BoundFunctor) : Phase → Prop
  | .polling => t.pc = .test
  | .handlers _ => t.pc = .handling false
  | .handling _ _ _ => t.pc = .handling false
  -- the first functor has not been called
  | .functors [] rest => t.pc = .batch rest
  | .functors (_ :: _) rest => t.pc = .executing rest
  | .exited => t.pc = .outside

/-- `t` is the loop `l` with what the server leaves out. -/
structure Refines (l : ServerLoop) (t : EventLoop BoundFunctor) : Prop where
  quiet : t.Quiet
  stands : StandsIn t l.phase
  running : l.phase ≠ .exited → t.quit = false
  /-- A destroyed loop has dropped its functors. -/
  pending : ∃ dropped, t.pendingFunctors = dropped ++ l.pending ∧
    (l.phase ≠ .exited → dropped = [])

section
variable {l l' : ServerLoop} {t t' : EventLoop BoundFunctor}

theorem standsIn_of_inHandlers {p : Phase} (h : p.inHandlers = true) :
    StandsIn t p ↔ t.pc = .handling false := by
  cases p with
  | handlers active => exact Iff.rfl
  | handling guard rest active => exact Iff.rfl
  | _ => simp [Phase.inHandlers] at h

theorem StandsIn.congr {p : Phase} (h : StandsIn t p) (hpc : t'.pc = t.pc) : StandsIn t' p := by
  unfold StandsIn at h ⊢
  split at h <;> exact hpc.trans h

theorem Refines.pending_eq (h : Refines l t) (hrunning : l.phase ≠ .exited) :
    t.pendingFunctors = l.pending := by
  rcases h.pending with ⟨dropped, hpending, hnone⟩
  rw [hpending, hnone hrunning, List.nil_append]

/-- A loop that runs, with the same functors pending. -/
theorem Refines.of_running (hquiet : t.Quiet) (hstands : StandsIn t l.phase)
    (hquit : t.quit = false) (hpending : t.pendingFunctors = l.pending) : Refines l t :=
  ⟨hquiet, hstands, fun _ => hquit, [], hpending, fun _ => rfl⟩

/-- Functors are pushed, by another thread as far as the `EventLoop` is concerned. -/
theorem Refines.push (h : Refines l t) {queued : List BoundFunctor}
    (hphase : l'.phase = l.phase ∨ l.phase.inHandlers = true ∧ l'.phase.inHandlers = true)
    (hpending : l'.pending = l.pending ++ queued) :
    ∃ es, Refines l' (run EventLoop.step t es) ∧
      (run EventLoop.step t es).queued = t.queued ++ queued ∧
      (run EventLoop.step t es).executed = t.executed := by
  refine ⟨EventLoop.pushAll queued, ?_⟩
  have hpushed := EventLoop.run_pushAll h.quiet queued
  generalize run EventLoop.step t (EventLoop.pushAll queued) = t' at hpushed
  have hrunning : l'.phase ≠ .exited → l.phase ≠ .exited := by
    intro hne
    rcases hphase with hsame | ⟨hin, _⟩
    · rw [← hsame]
      exact hne
    · intro hexited
      rw [hexited] at hin
      simp [Phase.inHandlers] at hin
  refine ⟨⟨hpushed.quiet, ?_, ?_, ?_⟩, hpushed.queued, hpushed.executed⟩
  · rcases hphase with hsame | ⟨hin, hin'⟩
    · rw [hsame]
      exact h.stands.congr hpushed.pc
    · rw [standsIn_of_inHandlers hin', hpushed.pc]
      exact (standsIn_of_inHandlers hin).mp h.stands
  · intro hne
    rw [hpushed.quit]
    exact h.running (hrunning hne)
  · rcases h.pending with ⟨dropped, hbefore, hnone⟩
    refine ⟨dropped, ?_, fun hne => hnone (hrunning hne)⟩
    rw [hpushed.pending, hbefore, hpending, List.append_assoc]

/-- `poll` returns, with the wakeup channel active if there is anything to read. -/
theorem Refines.poll (h : Refines l t) (hphase : l.phase = .polling)
    (hphase' : l'.phase.inHandlers = true) (hpending : l'.pending = l.pending) :
    ∃ es, Refines l' (run EventLoop.step t es) ∧
      (run EventLoop.step t es).queued = t.queued ∧
      (run EventLoop.step t es).executed = t.executed := by
  have hrunning : l.phase ≠ .exited := by simp [hphase]
  have hpc : t.pc = .test := by
    have hstands := h.stands
    rwa [hphase] at hstands
  have hquit := h.running hrunning
  by_cases hfd : t.wakeupFd = 0
  · refine ⟨[.test, .poll false], ?_⟩
    have hrun : run EventLoop.step t [.test, .poll false] = { t with pc := .handling false } := by
      simp [run, EventLoop.step, EventLoop.loopStep, h.quiet.queueing, hpc, hquit]
    rw [hrun]
    exact ⟨.of_running ⟨h.quiet.queueing, h.quiet.idle⟩ ((standsIn_of_inHandlers hphase').mpr rfl)
      hquit ((h.pending_eq hrunning).trans hpending.symm), rfl, rfl⟩
  · refine ⟨[.test, .poll true, .handleRead], ?_⟩
    have hrun : run EventLoop.step t [.test, .poll true, .handleRead] =
        { t with wakeupFd := 0, pc := .handling false } := by
      simp [run, EventLoop.step, EventLoop.loopStep, h.quiet.queueing, hpc, hquit, hfd,
        eventfdRead]
    rw [hrun]
    exact ⟨.of_running ⟨h.quiet.queueing, h.quiet.idle⟩ ((standsIn_of_inHandlers hphase').mpr rfl)
      hquit ((h.pending_eq hrunning).trans hpending.symm), rfl, rfl⟩

theorem Refines.startFunctors (h : Refines l t) (hphase : l.phase = .handlers [])
    (hphase' : l'.phase = .functors [] l.pending) (hpending : l'.pending = []) :
    ∃ es, Refines l' (run EventLoop.step t es) ∧
      (run EventLoop.step t es).queued = t.queued ∧
      (run EventLoop.step t es).executed = t.executed := by
  have hrunning : l.phase ≠ .exited := by simp [hphase]
  have hpc : t.pc = .handling false := by
    have hstands := h.stands
    rwa [hphase] at hstands
  refine ⟨[.doPendingFunctors, .swap], ?_⟩
  have hrun : run EventLoop.step t [.doPendingFunctors, .swap] =
      { t with callingPendingFunctors := true, pendingFunctors := [], pc := .batch l.pending } := by
    simp [run, EventLoop.step, EventLoop.loopStep, h.quiet.queueing, hpc, h.pending_eq hrunning]
  rw [hrun]
  refine ⟨.of_running ⟨h.quiet.queueing, h.quiet.idle⟩ ?_ (h.running hrunning) hpending.symm,
    rfl, rfl⟩
  rw [hphase']
  rfl

/-- The functor before has returned, and the next one is called. -/
theorem Refines.functor (h : Refines l t) {done rest queued : List BoundFunctor} {f : BoundFunctor}
    (hphase : l.phase = .functors done (f :: rest))
    (hphase' : l'.phase = .functors (done ++ [f]) rest)
    (hpending : l'.pending = l.pending ++ queued) :
    ∃ es, Refines l' (run EventLoop.step t es) ∧
      (run EventLoop.step t es).queued = t.queued ++ queued ∧
      (run EventLoop.step t es).executed = t.executed ++ [f] := by
  have hrunning : l.phase ≠ .exited := by simp [hphase]
  have hstands := h.stands
  rw [hphase] at hstands
  have hcalled : ∃ es, run EventLoop.step t es =
      { t with executed := t.executed ++ [f], pc := .executing rest } := by
    cases done with
    | nil =>
      have hpc : t.pc = .batch (f :: rest) := hstands
      exact ⟨[.call], by simp [run, EventLoop.step, EventLoop.loopStep, h.quiet.queueing, hpc]⟩
    | cons g done =>
      have hpc : t.pc = .executing (f :: rest) := hstands
      exact ⟨[.return, .call],
        by simp [run, EventLoop.step, EventLoop.loopStep, h.quiet.queueing, hpc]⟩
  rcases hcalled with ⟨es, hrun⟩
  have hin : Refines { l with phase := .functors (done ++ [f]) rest }
      { t with executed := t.executed ++ [f], pc := .executing rest } := by
    refine .of_running ⟨h.quiet.queueing, h.quiet.idle⟩ ?_ (h.running hrunning)
      (h.pending_eq hrunning)
    cases done <;> rfl
  -- what its body pushes
  rcases hin.push (Or.inl hphase') hpending with ⟨es', hrefines, hqueued, hexecuted⟩
  refine ⟨es ++ es', ?_⟩
  rw [run_append, hrun]
  exact ⟨hrefines, hqueued, hexecuted⟩

theorem Refines.endFunctors (h : Refines l t) {done : List BoundFunctor}
    (hphase : l.phase = .functors done []) (hphase' : l'.phase = .polling)
    (hpending : l'.pending = l.pending) :
    ∃ es, Refines l' (run EventLoop.step t es) ∧
      (run EventLoop.step t es).queued = t.queued ∧
      (run EventLoop.step t es).executed = t.executed := by
  have hrunning : l.phase ≠ .exited := by simp [hphase]
  have hstands := h.stands
  rw [hphase] at hstands
  have hended : ∃ es, run EventLoop.step t es =
      { t with callingPendingFunctors := false, pc := .test } := by
    cases done with
    | nil =>
      have hpc : t.pc = .batch [] := hstands
      exact ⟨[.endPendingFunctors],
        by simp [run, EventLoop.step, EventLoop.loopStep, h.quiet.queueing, hpc]⟩
    | cons g done =>
      have hpc : t.pc = .executing [] := hstands
      exact ⟨[.return, .endPendingFunctors],
        by simp [run, EventLoop.step, EventLoop.loopStep, h.quiet.queueing, hpc]⟩
  rcases hended with ⟨es, hrun⟩
  refine ⟨es, ?_⟩
  rw [hrun]
  refine ⟨.of_running ⟨h.quiet.queueing, h.quiet.idle⟩ ?_ (h.running hrunning)
    ((h.pending_eq hrunning).trans hpending.symm), rfl, rfl⟩
  rw [hphase']
  rfl

/-- `quit` is called, and the test of `quit_` ends the loop. -/
theorem Refines.exit (h : Refines l t) (hphase : l.phase = .polling) (hphase' : l'.phase = .exited)
    (hpending : l'.pending = l.pending) :
    ∃ es, Refines l' (run EventLoop.step t es) ∧
      (run EventLoop.step t es).queued = t.queued ∧
      (run EventLoop.step t es).executed = t.executed := by
  have hrunning : l.phase ≠ .exited := by simp [hphase]
  have hpc : t.pc = .test := by
    have hstands := h.stands
    rwa [hphase] at hstands
  refine ⟨[.quit 0, .wakeup 0, .test], ?_⟩
  have hrun : run EventLoop.step t [.quit 0, .wakeup 0, .test] =
      { t with
        quit := true
        wakeupFd := eventfdWrite t.wakeupFd
        threads := Function.update (Function.update t.threads 0 .quitStored) 0 .idle
        pc := .outside } := by
    simp [run, EventLoop.step, EventLoop.loopStep, EventLoop.setThread, EventLoop.wakeup,
      h.quiet.queueing, h.quiet.idle, hpc]
  rw [hrun]
  refine ⟨⟨⟨h.quiet.queueing, ?_⟩, ?_, ?_, [], ?_, fun _ => rfl⟩, rfl, rfl⟩
  · intro tid
    by_cases htid : tid = 0
    · simp [htid]
    · simpa [htid] using h.quiet.idle tid
  · rw [hphase']
    rfl
  · intro hne
    exact absurd hphase' hne
  · exact (h.pending_eq hrunning).trans hpending.symm

end

/-- The `EventLoop` follows every move. -/
theorem LoopMove.refines {l l' : ServerLoop} {t : EventLoop BoundFunctor}
    {queued executed : List BoundFunctor} (hmove : LoopMove l l' queued executed)
    (h : Refines l t) :
    ∃ es, Refines l' (run EventLoop.step t es) ∧
      (run EventLoop.step t es).queued = t.queued ++ queued ∧
      (run EventLoop.step t es).executed = t.executed ++ executed := by
  cases hmove with
  | stay queued hphase hpending =>
    rcases h.push hphase hpending with ⟨es, hrefines, hqueued, hexecuted⟩
    exact ⟨es, hrefines, hqueued, hexecuted.trans (List.append_nil _).symm⟩
  | poll hphase hphase' hpending =>
    rw [List.append_nil, List.append_nil]
    exact h.poll hphase hphase' hpending
  | startFunctors hphase hphase' hpending =>
    rw [List.append_nil, List.append_nil]
    exact h.startFunctors hphase hphase' hpending
  | functor done rest f queued hphase hphase' hpending =>
    exact h.functor hphase hphase' hpending
  | endFunctors done hphase hphase' hpending =>
    rw [List.append_nil, List.append_nil]
    exact h.endFunctors hphase hphase' hpending
  | exit hphase hphase' hpending =>
    rw [List.append_nil, List.append_nil]
    exact h.exit hphase hphase' hpending
  | destroy hphase hphase' hpending =>
    refine ⟨[], ?_, (List.append_nil _).symm, (List.append_nil _).symm⟩
    rcases h.pending with ⟨dropped, hbefore, _⟩
    have hstands : StandsIn t l'.phase := by
      rw [hphase', ← hphase]
      exact h.stands
    refine ⟨h.quiet, hstands, fun hne => absurd hphase' hne, dropped ++ l.pending, ?_,
      fun hne => absurd hphase' hne⟩
    rw [hpending, List.append_nil]
    exact hbefore

/-! ## Runs -/

theorem Refines.run {s : Server k} {ℓ : Fin (k + 1)} {t : EventLoop BoundFunctor}
    (h : Refines (s.loops ℓ) t) (ls : List (Label k)) :
    ∃ es, Refines ((Runs.run step s ls).loops ℓ) (Runs.run EventLoop.step t es) ∧
      (Runs.run EventLoop.step t es).queued = t.queued ++ collect step (queues ℓ) s ls ∧
      (Runs.run EventLoop.step t es).executed = t.executed ++ collect step (executes ℓ) s ls := by
  induction ls generalizing s t with
  | nil => exact ⟨[], h, by simp [collect, Runs.run], by simp [collect, Runs.run]⟩
  | cons e ls ih =>
    rcases (step_move s e ℓ).refines h with ⟨es, hrefines, hqueued, hexecuted⟩
    rcases ih hrefines with ⟨es', hrefines', hqueued', hexecuted'⟩
    refine ⟨es ++ es', ?_⟩
    rw [run_append]
    refine ⟨hrefines', ?_, ?_⟩
    · rw [hqueued', hqueued, List.append_assoc]
      rfl
    · rw [hexecuted', hexecuted, List.append_assoc]
      rfl

/-- `loop()` has been entered. -/
theorem init_refines (name : List Char) (listenAddr : InetAddress) (ℓ : Fin (k + 1)) :
    Refines ((init k name listenAddr).loops ℓ) (Runs.run EventLoop.step EventLoop.new [.loop]) :=
  .of_running ⟨rfl, fun _ => rfl⟩ rfl rfl rfl

/-- What is left of the batch in both. -/
theorem StandsIn.rest {t : EventLoop BoundFunctor} {p : Phase} (h : StandsIn t p) :
    t.pc.rest = p.rest := by
  unfold StandsIn at h
  split at h <;> rw [h] <;> rfl

/-- Every loop of a server makes a run of an `EventLoop` in which the same functors are
queued and executed. What a loop has executed, with what it still has, is what was
queued on it, in this order; only a loop that has left `loop()` has dropped any. -/
theorem loops_are_event_loops (name : List Char) (listenAddr : InetAddress) (ls : List (Label k))
    (ℓ : Fin (k + 1)) :
    (∃ es, Refines ((run step (init k name listenAddr) ls).loops ℓ)
        (run EventLoop.step EventLoop.new es) ∧
      (run EventLoop.step EventLoop.new es).queued =
        collect step (queues ℓ) (init k name listenAddr) ls ∧
      (run EventLoop.step EventLoop.new es).executed =
        collect step (executes ℓ) (init k name listenAddr) ls) ∧
    collect step (executes ℓ) (init k name listenAddr) ls <+:
      collect step (queues ℓ) (init k name listenAddr) ls ∧
    (((run step (init k name listenAddr) ls).loops ℓ).phase ≠ .exited →
      collect step (executes ℓ) (init k name listenAddr) ls ++
        ((run step (init k name listenAddr) ls).loops ℓ).queue =
          collect step (queues ℓ) (init k name listenAddr) ls) := by
  rcases (init_refines (k := k) name listenAddr ℓ).run ls with ⟨es, hrefines, hqueued, hexecuted⟩
  rw [← run_append] at hrefines hqueued hexecuted
  have hqueued' : (run EventLoop.step EventLoop.new ([.loop] ++ es)).queued =
      collect step (queues ℓ) (init k name listenAddr) ls := hqueued
  have hexecuted' : (run EventLoop.step EventLoop.new ([.loop] ++ es)).executed =
      collect step (executes ℓ) (init k name listenAddr) ls := hexecuted
  refine ⟨⟨[.loop] ++ es, hrefines, hqueued', hexecuted'⟩, ?_, ?_⟩
  · rw [← hqueued', ← hexecuted']
    exact EventLoop.executed_isPrefix _
  · intro hrunning
    have hconserved := EventLoop.run_conserved ([.loop] ++ es)
    rw [EventLoop.waiting, hrefines.stands.rest, hrefines.pending_eq hrunning, hqueued',
      hexecuted'] at hconserved
    exact hconserved

end Server

end EchoServer
