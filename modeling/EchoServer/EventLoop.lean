import Mathlib.Algebra.Group.Nat.Defs
import Mathlib.Logic.Function.Basic
import EchoServer.Lib.Runs

/-!
# EventLoop

One loop thread in `EventLoop::loop`, and any number of other threads that call
`queueInLoop` and `quit` on it. `pendingFunctors_`, `quit_` and the eventfd are
shared; a critical section of `mutex_`, an access to `quit_` and a system call
on the eventfd are one step each. `callingPendingFunctors_` is the loop
thread's own: the other threads wake the loop up without looking at it.

* `step`: the step function, over functors of any type; what a handler or a
  functor does is left to the run, which may queue functors from it;
* `step_cases`: the enabled steps, one constructor each;
* `Inv`, `step_inv`: where pending functors are bound to be noticed;
* `no_lost_wakeup`: the loop never blocks on pending functors with its eventfd
  at zero, unless another thread is on its way to writing it.
-/

namespace EchoServer

open Runs

/-! ## The eventfd -/

/-- The largest value the counter of an eventfd takes. -/
def eventfdMax : Nat := 2 ^ 64 - 2

/-- `write` of 1: a saturated counter is left as it is. -/
def eventfdWrite (counter : Nat) : Nat :=
  if counter < eventfdMax then counter + 1 else counter

/-- `read` resets the counter; on 0 it fails. -/
def eventfdRead (_counter : Nat) : Nat := 0

theorem eventfdWrite_pos (counter : Nat) : 0 < eventfdWrite counter := by
  unfold eventfdWrite
  split
  · omega
  · rename_i h
    have hmax : 0 < eventfdMax := by decide
    omega

/-! ## State -/

variable {F : Type u}

/-- Where the loop thread stands. -/
inductive EventLoop.Pc (F : Type u) where
  /-- Not in `loop()`. -/
  | outside
  /-- At the test of `quit_`. -/
  | test
  /-- In `poll`. -/
  | polling
  /-- Among the handlers; `wakeup`: the wakeup channel is still to be handled. -/
  | handling (wakeup : Bool)
  /-- In `doPendingFunctors`, before the swap. -/
  | swapping
  /-- In `doPendingFunctors`, before the functors `rest` of the batch. -/
  | batch (rest : List F)
  /-- In a functor of the batch, before `rest`. -/
  | executing (rest : List F)

/-- Where another thread stands. -/
inductive EventLoop.Thread where
  | idle
  /-- In `queueInLoop`, between the push and `wakeup()`. -/
  | pushed
  /-- In `quit`, between the store and `wakeup()`. -/
  | quitStored
deriving DecidableEq, Repr

structure EventLoop (F : Type u) where
  pc : EventLoop.Pc F
  quit : Bool
  callingPendingFunctors : Bool
  pendingFunctors : List F
  /-- The counter of the eventfd `wakeupFd_`. -/
  wakeupFd : Nat
  /-- The loop thread is in `queueInLoop`, past the push. -/
  queueing : Bool
  threads : Nat → EventLoop.Thread
  /-- All functors pushed so far, in the order of the pushes. -/
  queued : List F
  /-- All functors taken from a batch and called so far. -/
  executed : List F

namespace EventLoop

/-- The constructor. -/
def new : EventLoop F where
  pc := .outside
  quit := true
  callingPendingFunctors := false
  pendingFunctors := []
  wakeupFd := 0
  queueing := false
  threads := fun _ => .idle
  queued := []
  executed := []

/-! ## Steps -/

inductive Label (F : Type u) where
  /-- Another thread in `queueInLoop`. -/
  | push (tid : Nat) (cb : F)
  /-- Another thread in `quit`. -/
  | quit (tid : Nat)
  /-- Its `wakeup()`. -/
  | wakeup (tid : Nat)
  /-- The loop thread enters `loop()`. -/
  | loop
  | test
  /-- `poll` returns; `wakeup`: the wakeup channel is active. -/
  | poll (wakeup : Bool)
  /-- `EventLoop::handleRead`. -/
  | handleRead
  /-- A handler or a functor calls `queueInLoop`. -/
  | queueInLoop (cb : F)
  /-- The rest of this call. -/
  | queueWakeup
  /-- A handler or a functor calls `quit`. -/
  | quitInLoop
  | doPendingFunctors
  | swap
  | call
  | return
  | endPendingFunctors

def pushFunctor (s : EventLoop F) (cb : F) : EventLoop F :=
  { s with pendingFunctors := s.pendingFunctors ++ [cb], queued := s.queued ++ [cb] }

def setThread (s : EventLoop F) (tid : Nat) (t : Thread) : EventLoop F :=
  { s with threads := Function.update s.threads tid t }

def wakeup (s : EventLoop F) : EventLoop F := { s with wakeupFd := eventfdWrite s.wakeupFd }

/-- User code runs in the loop thread: a handler or a functor. -/
def inUserCode : Pc F → Bool
  | .handling _ => true
  | .executing _ => true
  | _ => false

/-- The steps of the loop thread outside of `queueInLoop`. -/
def loopStep (s : EventLoop F) : Label F → EventLoop F
  | .loop =>
    match s.pc with
    | .outside => { s with quit := false, pc := .test }
    | _ => s
  | .test =>
    match s.pc with
    | .test => if s.quit then { s with pc := .outside } else { s with pc := .polling }
    | _ => s
  | .poll wakeup =>
    match s.pc with
    | .polling => if wakeup && s.wakeupFd == 0 then s else { s with pc := .handling wakeup }
    | _ => s
  | .handleRead =>
    match s.pc with
    | .handling true => { s with wakeupFd := eventfdRead s.wakeupFd, pc := .handling false }
    | _ => s
  | .queueInLoop cb =>
    if inUserCode s.pc then { s.pushFunctor cb with queueing := true } else s
  | .quitInLoop => if inUserCode s.pc then { s with quit := true } else s
  | .doPendingFunctors =>
    match s.pc with
    | .handling false => { s with callingPendingFunctors := true, pc := .swapping }
    | _ => s
  | .swap =>
    match s.pc with
    | .swapping => { s with pendingFunctors := [], pc := .batch s.pendingFunctors }
    | _ => s
  | .call =>
    match s.pc with
    | .batch (cb :: rest) => { s with executed := s.executed ++ [cb], pc := .executing rest }
    | _ => s
  | .return =>
    match s.pc with
    | .executing rest => { s with pc := .batch rest }
    | _ => s
  | .endPendingFunctors =>
    match s.pc with
    | .batch [] => { s with callingPendingFunctors := false, pc := .test }
    | _ => s
  | _ => s

def step (s : EventLoop F) : Label F → EventLoop F
  | .push tid cb =>
    if s.threads tid = .idle then (s.pushFunctor cb).setThread tid .pushed else s
  | .quit tid =>
    if s.threads tid = .idle then { s with quit := true }.setThread tid .quitStored else s
  | .wakeup tid =>
    if s.threads tid = .idle then s else s.wakeup.setThread tid .idle
  | .queueWakeup =>
    if s.queueing then
      if s.callingPendingFunctors then { s.wakeup with queueing := false }
      else { s with queueing := false }
    else s
  | e => if s.queueing then s else s.loopStep e

/-- The enabled steps. -/
inductive Step (s : EventLoop F) : Label F → EventLoop F → Prop where
  | push (tid : Nat) (cb : F) (hthread : s.threads tid = .idle) :
      Step s (.push tid cb) ((s.pushFunctor cb).setThread tid .pushed)
  | quit (tid : Nat) (hthread : s.threads tid = .idle) :
      Step s (.quit tid) ({ s with quit := true }.setThread tid .quitStored)
  | wakeup (tid : Nat) (hthread : s.threads tid ≠ .idle) :
      Step s (.wakeup tid) (s.wakeup.setThread tid .idle)
  | queueWakeup (hqueueing : s.queueing = true) (hcalling : s.callingPendingFunctors = true) :
      Step s .queueWakeup { s.wakeup with queueing := false }
  | queueSilent (hqueueing : s.queueing = true) (hcalling : s.callingPendingFunctors = false) :
      Step s .queueWakeup { s with queueing := false }
  | loop (hidle : s.queueing = false) (hpc : s.pc = .outside) :
      Step s .loop { s with quit := false, pc := .test }
  | testQuit (hidle : s.queueing = false) (hpc : s.pc = .test) (hquit : s.quit = true) :
      Step s .test { s with pc := .outside }
  | testGoOn (hidle : s.queueing = false) (hpc : s.pc = .test) (hquit : s.quit = false) :
      Step s .test { s with pc := .polling }
  | poll (wakeup : Bool) (hidle : s.queueing = false) (hpc : s.pc = .polling)
      (hactive : wakeup = true → s.wakeupFd ≠ 0) :
      Step s (.poll wakeup) { s with pc := .handling wakeup }
  | handleRead (hidle : s.queueing = false) (hpc : s.pc = .handling true) :
      Step s .handleRead { s with wakeupFd := eventfdRead s.wakeupFd, pc := .handling false }
  | queueInLoop (cb : F) (hidle : s.queueing = false) (huser : inUserCode s.pc = true) :
      Step s (.queueInLoop cb) { s.pushFunctor cb with queueing := true }
  | quitInLoop (hidle : s.queueing = false) (huser : inUserCode s.pc = true) :
      Step s .quitInLoop { s with quit := true }
  | doPendingFunctors (hidle : s.queueing = false) (hpc : s.pc = .handling false) :
      Step s .doPendingFunctors { s with callingPendingFunctors := true, pc := .swapping }
  | swap (hidle : s.queueing = false) (hpc : s.pc = .swapping) :
      Step s .swap { s with pendingFunctors := [], pc := .batch s.pendingFunctors }
  | call (cb : F) (rest : List F) (hidle : s.queueing = false) (hpc : s.pc = .batch (cb :: rest)) :
      Step s .call { s with executed := s.executed ++ [cb], pc := .executing rest }
  | return (rest : List F) (hidle : s.queueing = false) (hpc : s.pc = .executing rest) :
      Step s .return { s with pc := .batch rest }
  | endPendingFunctors (hidle : s.queueing = false) (hpc : s.pc = .batch []) :
      Step s .endPendingFunctors { s with callingPendingFunctors := false, pc := .test }

theorem loopStep_cases {s : EventLoop F} (hidle : s.queueing = false) (e : Label F) :
    s.loopStep e = s ∨ Step s e (s.loopStep e) := by
  cases e with
  | loop =>
    simp only [loopStep]
    split
    · rename_i hpc
      exact Or.inr (.loop hidle hpc)
    · exact Or.inl rfl
  | test =>
    simp only [loopStep]
    split
    · rename_i hpc
      right
      split
      · rename_i hquit
        exact .testQuit hidle hpc hquit
      · rename_i hquit
        exact .testGoOn hidle hpc (by simpa using hquit)
    · exact Or.inl rfl
  | poll wakeup =>
    simp only [loopStep]
    split
    · rename_i hpc
      split
      · exact Or.inl rfl
      · rename_i hactive
        exact Or.inr (.poll wakeup hidle hpc (by simpa using hactive))
    · exact Or.inl rfl
  | handleRead =>
    simp only [loopStep]
    split
    · rename_i hpc
      exact Or.inr (.handleRead hidle hpc)
    · exact Or.inl rfl
  | queueInLoop cb =>
    simp only [loopStep]
    split
    · rename_i huser
      exact Or.inr (.queueInLoop cb hidle huser)
    · exact Or.inl rfl
  | quitInLoop =>
    simp only [loopStep]
    split
    · rename_i huser
      exact Or.inr (.quitInLoop hidle huser)
    · exact Or.inl rfl
  | doPendingFunctors =>
    simp only [loopStep]
    split
    · rename_i hpc
      exact Or.inr (.doPendingFunctors hidle hpc)
    · exact Or.inl rfl
  | swap =>
    simp only [loopStep]
    split
    · rename_i hpc
      exact Or.inr (.swap hidle hpc)
    · exact Or.inl rfl
  | call =>
    simp only [loopStep]
    split
    · rename_i cb rest hpc
      exact Or.inr (.call cb rest hidle hpc)
    · exact Or.inl rfl
  | «return» =>
    simp only [loopStep]
    split
    · rename_i rest hpc
      exact Or.inr (.return rest hidle hpc)
    · exact Or.inl rfl
  | endPendingFunctors =>
    simp only [loopStep]
    split
    · rename_i hpc
      exact Or.inr (.endPendingFunctors hidle hpc)
    · exact Or.inl rfl
  | _ => exact Or.inl rfl

/-- A step is a stutter or one of the enabled steps. -/
theorem step_cases (s : EventLoop F) (e : Label F) : s.step e = s ∨ Step s e (s.step e) := by
  have hloop : (if s.queueing then s else s.loopStep e) = s ∨
      Step s e (if s.queueing then s else s.loopStep e) := by
    split
    · exact Or.inl rfl
    · rename_i hidle
      exact loopStep_cases (by simpa using hidle) e
  cases e with
  | push tid cb =>
    simp only [step]
    split
    · rename_i hthread
      exact Or.inr (.push tid cb hthread)
    · exact Or.inl rfl
  | quit tid =>
    simp only [step]
    split
    · rename_i hthread
      exact Or.inr (.quit tid hthread)
    · exact Or.inl rfl
  | wakeup tid =>
    simp only [step]
    split
    · exact Or.inl rfl
    · rename_i hthread
      exact Or.inr (.wakeup tid hthread)
  | queueWakeup =>
    simp only [step]
    split
    · rename_i hqueueing
      right
      split
      · rename_i hcalling
        exact .queueWakeup hqueueing hcalling
      · rename_i hcalling
        exact .queueSilent hqueueing (by simpa using hcalling)
    · exact Or.inl rfl
  | _ => exact hloop

theorem covers : Covers (Step (F := F)) step := step_cases

/-! ## The invariant -/

/-- `poll` is next, or has been entered. -/
def AboutToBlock (s : EventLoop F) : Prop :=
  s.pc = .polling ∨ s.pc = .test ∧ s.quit = false

/-- The wakeup eventfd is positive, or another thread is about to make it so. -/
def Noticed (s : EventLoop F) : Prop :=
  0 < s.wakeupFd ∨ ∃ tid, s.threads tid = .pushed

/-- The swap of `doPendingFunctors` comes before the next `poll`. -/
def BeforeSwap : Pc F → Prop
  | .handling _ => True
  | .swapping => True
  | _ => False

/-- The loop thread is between setting and clearing the flag. -/
def Calling : Pc F → Prop
  | .swapping => True
  | .batch _ => True
  | .executing _ => True
  | _ => False

structure Inv (s : EventLoop F) : Prop where
  calling : s.callingPendingFunctors = true ↔ Calling s.pc
  queueing : s.queueing = true → inUserCode s.pc = true
  pending : s.pendingFunctors ≠ [] →
    s.Noticed ∨ BeforeSwap s.pc ∨ s.queueing = true ∧ Calling s.pc

theorem new_inv : (new : EventLoop F).Inv := by
  refine ⟨?_, ?_, ?_⟩
  · simp [new, Calling]
  · simp [new]
  · simp [new]

/-- A thread that has pushed keeps the loop noticed whatever else happens. -/
theorem Noticed.setThread {s : EventLoop F} (h : s.Noticed) {tid : Nat} {t : Thread}
    (htid : s.threads tid ≠ .pushed ∨ t = .pushed) : (s.setThread tid t).Noticed := by
  rcases h with hpos | ⟨tid', hpushed⟩
  · exact Or.inl hpos
  · refine Or.inr ⟨tid', ?_⟩
    by_cases heq : tid' = tid
    · subst heq
      rcases htid with hne | rfl
      · exact absurd hpushed hne
      · simp [EventLoop.setThread]
    · simpa [EventLoop.setThread, heq] using hpushed

theorem wakeup_noticed (s : EventLoop F) : s.wakeup.Noticed :=
  Or.inl (eventfdWrite_pos s.wakeupFd)

/-- A step that keeps the eventfd, the functors and the other threads. -/
theorem Inv.move {s s' : EventLoop F} (h : s.Inv) (hidle : s.queueing = false)
    (hcalling : s'.callingPendingFunctors = true ↔ Calling s'.pc) (hqueueing : s'.queueing = false)
    (hpending : s'.pendingFunctors = s.pendingFunctors)
    (hnoticed : s.Noticed → s'.Noticed ∨ BeforeSwap s'.pc)
    (hbefore : BeforeSwap s.pc → BeforeSwap s'.pc) : s'.Inv := by
  constructor
  · exact hcalling
  · intro htrue
    simp [hqueueing] at htrue
  · intro hne
    rw [hpending] at hne
    rcases h.pending hne with hold | hold | ⟨hold, _⟩
    · rcases hnoticed hold with hnew | hnew
      · exact Or.inl hnew
      · exact Or.inr (Or.inl hnew)
    · exact Or.inr (Or.inl (hbefore hold))
    · simp [hidle] at hold

theorem step_inv {s : EventLoop F} (h : s.Inv) (e : Label F) : (s.step e).Inv := by
  have hcalling := h.calling
  apply covers.elim h
  intro s' hstep
  cases hstep with
  | push tid cb hthread =>
    refine ⟨h.calling, h.queueing, ?_⟩
    intro _
    exact Or.inl (Or.inr ⟨tid, by simp [setThread]⟩)
  | quit tid hthread =>
    refine ⟨h.calling, h.queueing, ?_⟩
    intro hne
    rcases h.pending hne with hnoticed | hlater
    · have hkept : { s with quit := true }.Noticed := hnoticed
      exact Or.inl (hkept.setThread (Or.inl (by simp [hthread])))
    · exact Or.inr hlater
  | wakeup tid hthread =>
    refine ⟨h.calling, h.queueing, ?_⟩
    intro _
    exact Or.inl (Or.inl (eventfdWrite_pos s.wakeupFd))
  | queueWakeup hqueueing hflag =>
    refine ⟨h.calling, by simp, ?_⟩
    intro _
    exact Or.inl (wakeup_noticed s)
  | queueSilent hqueueing hflag =>
    refine ⟨h.calling, by simp, ?_⟩
    intro hne
    -- the flag is down: the push came from a handler
    rcases h.pending hne with hnoticed | hbefore | ⟨_, hin⟩
    · exact Or.inl hnoticed
    · exact Or.inr (Or.inl hbefore)
    · simp [h.calling.mpr hin] at hflag
  | loop hidle hpc | testQuit hidle hpc | testGoOn hidle hpc =>
    rw [hpc] at hcalling
    exact h.move hidle hcalling hidle rfl Or.inl (by simp [hpc, BeforeSwap])
  | poll wakeup hidle hpc hactive =>
    rw [hpc] at hcalling
    exact h.move hidle hcalling hidle rfl Or.inl (by simp [BeforeSwap])
  | handleRead hidle hpc =>
    -- the counter is reset, but the swap is still to come
    rw [hpc] at hcalling
    exact h.move hidle hcalling hidle rfl (fun _ => Or.inr trivial) (fun _ => trivial)
  | queueInLoop cb hidle huser =>
    refine ⟨h.calling, fun _ => huser, ?_⟩
    intro _
    -- from a handler the swap is to come, from a functor the wakeup
    show _ ∨ BeforeSwap s.pc ∨ true = true ∧ Calling s.pc
    cases hpc : s.pc with
    | handling w => exact Or.inr (Or.inl trivial)
    | executing rest => exact Or.inr (Or.inr ⟨rfl, trivial⟩)
    | _ => simp [hpc, inUserCode] at huser
  | quitInLoop hidle huser => exact ⟨h.calling, h.queueing, h.pending⟩
  | doPendingFunctors hidle hpc =>
    exact h.move hidle (by simp [Calling]) hidle rfl Or.inl (fun _ => trivial)
  | swap hidle hpc =>
    rw [hpc] at hcalling
    refine ⟨hcalling, by simp [hidle], ?_⟩
    intro hne
    exact absurd rfl hne
  | call cb rest hidle hpc | «return» rest hidle hpc =>
    rw [hpc] at hcalling
    exact h.move hidle hcalling hidle rfl Or.inl (by simp [hpc, BeforeSwap])
  | endPendingFunctors hidle hpc =>
    exact h.move hidle (by simp [Calling]) hidle rfl Or.inl (by simp [hpc, BeforeSwap])

/-! ## No lost wakeup -/

/-- With functors pending the loop does not go to sleep unnoticed. -/
def NoLostWakeup (s : EventLoop F) : Prop :=
  s.AboutToBlock → s.pendingFunctors ≠ [] → s.Noticed

theorem Inv.noLostWakeup {s : EventLoop F} (h : s.Inv) : s.NoLostWakeup := by
  intro hblock hne
  rcases h.pending hne with hnoticed | hbefore | ⟨_, hcalling⟩
  · exact hnoticed
  · rcases hblock with hpc | ⟨hpc, _⟩
    · simp [hpc, BeforeSwap] at hbefore
    · simp [hpc, BeforeSwap] at hbefore
  · rcases hblock with hpc | ⟨hpc, _⟩
    · simp [hpc, Calling] at hcalling
    · simp [hpc, Calling] at hcalling

/-- In every reachable state: a loop about to block on pending functors has a
positive eventfd, or a thread that has pushed and not yet written to it. -/
theorem no_lost_wakeup (es : List (Label F)) : (run step new es).NoLostWakeup :=
  (run_invariant Inv (fun _ e h => step_inv h e) new_inv es).noLostWakeup

end EventLoop

end EchoServer
