import EchoServer.EventLoop

/-!
# EventLoopThread

The owner of an `EventLoopThread` starts the thread with `startLoop` and
destroys the object; `threadFunc` runs an `EventLoop` that lives on its own
stack; other threads may call `queueInLoop` and `quit` on that loop. `loop_` is
written under `mutex_` by `threadFunc`, and read without it by the destructor.
The destructor's call of `quit` is four steps: reading `loop_` once more,
storing `quit_`, comparing the thread ids, and writing to the eventfd.

* `Step`, `step_cases`: the enabled steps, one constructor each;
* `Inv`, `Inv.step`: how the two program counters, `loop_` and the life of the
  `EventLoop` go together;
* `quit_remembered`: a `quit` that comes before the thread has entered `loop()`
  is undone by it.
-/

namespace EchoServer

open Runs

variable {F : Type u}

/-- Steps of the loop thread inside `loop()`. -/
def EventLoop.Label.inLoop : EventLoop.Label F → Bool
  | .push _ _ => false
  | .quit _ => false
  | .wakeup _ => false
  | .loop => false
  | _ => true

/-- Steps of other threads. -/
def EventLoop.Label.fromOther : EventLoop.Label F → Bool
  | .push _ _ => true
  | .quit _ => true
  | .wakeup _ => true
  | _ => false

/-- Only the entry of `loop()` clears `quit_`. -/
theorem EventLoop.step_quit {s : EventLoop F} {e : EventLoop.Label F}
    (he : e.inLoop = true ∨ e.fromOther = true) (h : s.quit = true) : (s.step e).quit = true := by
  refine covers.elim (P := fun s' => s'.quit = true) h ?_
  intro s' hstep
  cases hstep with
  | loop => simp [Label.inLoop, Label.fromOther] at he
  | quit | quitInLoop => rfl
  | _ => exact h

namespace EventLoopThread

/-! ## State -/

/-- Where `threadFunc` stands. -/
inductive ThreadFunc where
  | notStarted
  | constructing
  /-- Before `loop_ = &loop`. -/
  | publishing
  /-- Before `loop.loop()`. -/
  | entering
  | looping
  /-- Before `loop_ = nullptr`. -/
  | clearing
  /-- Before `~EventLoop`. -/
  | destroying
  | finished
deriving DecidableEq, Repr

/-- Where the owner stands. -/
inductive Owner where
  | created
  /-- In `startLoop`, waiting for `loop_`. -/
  | starting
  | started
  /-- In the destructor, `loop_ != nullptr` was true. -/
  | tested
  /-- In `loop_->quit()`. -/
  | calling
  /-- `loop_` was null when it was read for the call. -/
  | crashed
  | stored
  /-- Before `wakeup()`. -/
  | waking
  | joining
  | joined
  /-- `loop_ != nullptr` was false. -/
  | skipping
  | destroyed
deriving DecidableEq, Repr

/-- The `EventLoop` on the stack of `threadFunc`. -/
inductive Life where
  | unborn
  | alive
  | dead
deriving DecidableEq, Repr

end EventLoopThread

structure EventLoopThread (F : Type u) where
  /-- What the memory of the `EventLoop` holds. -/
  loop : EventLoop F
  life : EventLoopThread.Life
  /-- `loop_` is not null. -/
  loopPtr : Bool
  thread : EventLoopThread.ThreadFunc
  owner : EventLoopThread.Owner

namespace EventLoopThread

/-- The constructor. -/
def new : EventLoopThread F where
  loop := EventLoop.new
  life := .unborn
  loopPtr := false
  thread := .notStarted
  owner := .created

/-! ## Steps -/

inductive Label (F : Type u) where
  | startLoop
  /-- `cond_.wait` ends, `startLoop` returns. -/
  | startLoopReturn
  /-- The destructor tests `loop_`. -/
  | dtor
  | loadLoop
  | storeQuit
  /-- `isInLoopThread()`. -/
  | checkThread
  | wakeup
  | join
  | dtorEnd
  | construct
  | publish
  | enterLoop
  | inLoop (e : EventLoop.Label F)
  | clear
  | destroy
  /-- Another thread in `queueInLoop` or `quit`. -/
  | other (e : EventLoop.Label F)

/-- Where `threadFunc` stands after a step of `loop()`. -/
def afterLoopStep : EventLoop.Pc F → ThreadFunc
  | .outside => .clearing
  | _ => .looping

def step (s : EventLoopThread F) : Label F → EventLoopThread F
  | .startLoop =>
    if s.owner = .created then { s with owner := .starting, thread := .constructing } else s
  | .startLoopReturn =>
    -- the predicate of `cond_.wait`
    if s.owner = .starting ∧ s.loopPtr = true then { s with owner := .started } else s
  | .dtor =>
    if s.owner = .created ∨ s.owner = .started then
      -- `if(loop_ != nullptr)`, without the lock
      { s with owner := if s.loopPtr then .tested else .skipping }
    else s
  | .loadLoop =>
    -- `loop_` is read a second time for the call
    if s.owner = .tested then { s with owner := if s.loopPtr then .calling else .crashed } else s
  | .storeQuit =>
    if s.owner = .calling then { s with owner := .stored, loop := { s.loop with quit := true } }
    else s
  -- `if(!isInLoopThread())`, which is true here
  | .checkThread => if s.owner = .stored then { s with owner := .waking } else s
  | .wakeup =>
    if s.owner = .waking then { s with owner := .joining, loop := s.loop.wakeup } else s
  | .join =>
    if s.owner = .joining ∧ s.thread = .finished then { s with owner := .joined } else s
  | .dtorEnd =>
    if s.owner = .joined ∨ s.owner = .skipping then { s with owner := .destroyed } else s
  | .construct =>
    if s.thread = .constructing then
      { s with thread := .publishing, life := .alive, loop := EventLoop.new }
    else s
  | .publish =>
    if s.thread = .publishing then { s with thread := .entering, loopPtr := true } else s
  | .enterLoop =>
    if s.thread = .entering then { s with thread := .looping, loop := s.loop.step .loop } else s
  | .inLoop e =>
    if s.thread = .looping ∧ e.inLoop = true then
      { s with thread := afterLoopStep (s.loop.step e).pc, loop := s.loop.step e }
    else s
  | .clear =>
    if s.thread = .clearing then { s with thread := .destroying, loopPtr := false } else s
  | .destroy => if s.thread = .destroying then { s with thread := .finished, life := .dead } else s
  | .other e =>
    -- others may use the pointer `startLoop` gave them, even when the loop is gone
    if s.life ≠ .unborn ∧ e.fromOther = true then { s with loop := s.loop.step e } else s

/-- The enabled steps. -/
inductive Step (s : EventLoopThread F) : Label F → EventLoopThread F → Prop where
  | startLoop (howner : s.owner = .created) :
      Step s .startLoop { s with owner := .starting, thread := .constructing }
  | startLoopReturn (howner : s.owner = .starting) (hptr : s.loopPtr = true) :
      Step s .startLoopReturn { s with owner := .started }
  | dtorLoop (howner : s.owner = .created ∨ s.owner = .started) (hptr : s.loopPtr = true) :
      Step s .dtor { s with owner := .tested }
  | dtorNull (howner : s.owner = .created ∨ s.owner = .started) (hptr : s.loopPtr = false) :
      Step s .dtor { s with owner := .skipping }
  | loadLoop (howner : s.owner = .tested) (hptr : s.loopPtr = true) :
      Step s .loadLoop { s with owner := .calling }
  | loadNull (howner : s.owner = .tested) (hptr : s.loopPtr = false) :
      Step s .loadLoop { s with owner := .crashed }
  | storeQuit (howner : s.owner = .calling) :
      Step s .storeQuit { s with owner := .stored, loop := { s.loop with quit := true } }
  | checkThread (howner : s.owner = .stored) : Step s .checkThread { s with owner := .waking }
  | wakeup (howner : s.owner = .waking) :
      Step s .wakeup { s with owner := .joining, loop := s.loop.wakeup }
  | join (howner : s.owner = .joining) (hthread : s.thread = .finished) :
      Step s .join { s with owner := .joined }
  | dtorEnd (howner : s.owner = .joined ∨ s.owner = .skipping) :
      Step s .dtorEnd { s with owner := .destroyed }
  | construct (hthread : s.thread = .constructing) :
      Step s .construct { s with thread := .publishing, life := .alive, loop := EventLoop.new }
  | publish (hthread : s.thread = .publishing) :
      Step s .publish { s with thread := .entering, loopPtr := true }
  | enterLoop (hthread : s.thread = .entering) :
      Step s .enterLoop { s with thread := .looping, loop := s.loop.step .loop }
  | inLoop (e : EventLoop.Label F) (hthread : s.thread = .looping) (he : e.inLoop = true) :
      Step s (.inLoop e)
        { s with thread := afterLoopStep (s.loop.step e).pc, loop := s.loop.step e }
  | clear (hthread : s.thread = .clearing) :
      Step s .clear { s with thread := .destroying, loopPtr := false }
  | destroy (hthread : s.thread = .destroying) :
      Step s .destroy { s with thread := .finished, life := .dead }
  | other (e : EventLoop.Label F) (hlife : s.life ≠ .unborn) (he : e.fromOther = true) :
      Step s (.other e) { s with loop := s.loop.step e }

/-- A step is a stutter or one of the enabled steps. -/
theorem step_cases (s : EventLoopThread F) (e : Label F) : s.step e = s ∨ Step s e (s.step e) := by
  cases e with
  | startLoop =>
    simp only [step]
    split
    · rename_i h
      exact Or.inr (.startLoop h)
    · exact Or.inl rfl
  | startLoopReturn =>
    simp only [step]
    split
    · rename_i h
      exact Or.inr (.startLoopReturn h.1 h.2)
    · exact Or.inl rfl
  | dtor =>
    simp only [step]
    split
    · rename_i h
      right
      by_cases hptr : s.loopPtr = true
      · rw [if_pos hptr]
        exact .dtorLoop h hptr
      · rw [if_neg hptr]
        exact .dtorNull h (by simpa using hptr)
    · exact Or.inl rfl
  | loadLoop =>
    simp only [step]
    split
    · rename_i h
      right
      by_cases hptr : s.loopPtr = true
      · rw [if_pos hptr]
        exact .loadLoop h hptr
      · rw [if_neg hptr]
        exact .loadNull h (by simpa using hptr)
    · exact Or.inl rfl
  | storeQuit =>
    simp only [step]
    split
    · rename_i h
      exact Or.inr (.storeQuit h)
    · exact Or.inl rfl
  | checkThread =>
    simp only [step]
    split
    · rename_i h
      exact Or.inr (.checkThread h)
    · exact Or.inl rfl
  | wakeup =>
    simp only [step]
    split
    · rename_i h
      exact Or.inr (.wakeup h)
    · exact Or.inl rfl
  | join =>
    simp only [step]
    split
    · rename_i h
      exact Or.inr (.join h.1 h.2)
    · exact Or.inl rfl
  | dtorEnd =>
    simp only [step]
    split
    · rename_i h
      exact Or.inr (.dtorEnd h)
    · exact Or.inl rfl
  | construct =>
    simp only [step]
    split
    · rename_i h
      exact Or.inr (.construct h)
    · exact Or.inl rfl
  | publish =>
    simp only [step]
    split
    · rename_i h
      exact Or.inr (.publish h)
    · exact Or.inl rfl
  | enterLoop =>
    simp only [step]
    split
    · rename_i h
      exact Or.inr (.enterLoop h)
    · exact Or.inl rfl
  | inLoop e =>
    simp only [step]
    split
    · rename_i h
      exact Or.inr (.inLoop e h.1 h.2)
    · exact Or.inl rfl
  | clear =>
    simp only [step]
    split
    · rename_i h
      exact Or.inr (.clear h)
    · exact Or.inl rfl
  | destroy =>
    simp only [step]
    split
    · rename_i h
      exact Or.inr (.destroy h)
    · exact Or.inl rfl
  | other e =>
    simp only [step]
    split
    · rename_i h
      exact Or.inr (.other e h.1 h.2)
    · exact Or.inl rfl

theorem covers : Covers Step (step (F := F)) := step_cases

/-! ## The two threads -/

namespace ThreadFunc

/-- `loop_` points to the `EventLoop`. -/
def published : ThreadFunc → Bool
  | .entering => true
  | .looping => true
  | .clearing => true
  | _ => false

/-- `loop_` has been set, `startLoop` can have returned. -/
def started : ThreadFunc → Bool
  | .notStarted => false
  | .constructing => false
  | .publishing => false
  | _ => true

def life : ThreadFunc → Life
  | .notStarted => .unborn
  | .constructing => .unborn
  | .finished => .dead
  | _ => .alive

theorem started_of_published {t : ThreadFunc} (h : t.published = true) : t.started = true := by
  cases t with
  | entering | looping | clearing => rfl
  | _ => simp [published] at h

theorem life_eq_dead {t : ThreadFunc} : t.life = .dead ↔ t = .finished := by
  cases t with
  | finished => simp [life]
  | _ => simp [life]

end ThreadFunc

/-- Where `threadFunc` can be while the owner is there. -/
def Owner.allows : Owner → ThreadFunc → Bool
  | .created, t => t == .notStarted
  | .starting, t => t != .notStarted
  | .skipping, t => t == .notStarted || t.started
  | .destroyed, t => t == .notStarted || t.started
  | _, t => t.started

/-- A step of `threadFunc` that the owner does not notice. -/
theorem Owner.allows_mono {o : Owner} {t t' : ThreadFunc} (h : o.allows t = true)
    (hstarted : t ≠ .notStarted) (hne : t' ≠ .notStarted)
    (hmono : t.started = true → t'.started = true) : o.allows t' = true := by
  cases o with
  | created => exact absurd (by simpa [allows] using h) hstarted
  | starting => simpa [allows] using hne
  | skipping | destroyed =>
    simp only [allows, Bool.or_eq_true, beq_iff_eq] at h ⊢
    rcases h with h | h
    · exact absurd h hstarted
    · exact Or.inr (hmono h)
  | _ => exact hmono h

structure Inv (s : EventLoopThread F) : Prop where
  ptr : s.loopPtr = s.thread.published
  life : s.life = s.thread.life
  owner : s.owner.allows s.thread = true

theorem new_inv : (new : EventLoopThread F).Inv := ⟨rfl, rfl, rfl⟩

theorem afterLoopStep_cases (pc : EventLoop.Pc F) :
    afterLoopStep pc = .clearing ∨ afterLoopStep pc = .looping := by
  cases pc with
  | outside => exact Or.inl rfl
  | _ => exact Or.inr rfl

/-- A step of the owner. -/
theorem Inv.setOwner {s : EventLoopThread F} (h : s.Inv) {o : Owner} (loop : EventLoop F)
    (ho : o.allows s.thread = true) : { s with owner := o, loop := loop }.Inv :=
  ⟨h.ptr, h.life, ho⟩

/-- A step of `threadFunc` once it has been started. -/
theorem Inv.setThread {s : EventLoopThread F} (h : s.Inv) {t : ThreadFunc} {life : Life}
    {ptr : Bool} (loop : EventLoop F) (hstarted : s.thread ≠ .notStarted) (hne : t ≠ .notStarted)
    (hmono : s.thread.started = true → t.started = true) (hptr : ptr = t.published)
    (hlife : life = t.life) :
    { s with thread := t, life := life, loopPtr := ptr, loop := loop }.Inv :=
  ⟨hptr, hlife, Owner.allows_mono h.owner hstarted hne hmono⟩

theorem Inv.step {s : EventLoopThread F} (h : s.Inv) (e : Label F) : (s.step e).Inv := by
  have howns := h.owner
  apply covers.elim h
  intro s' hstep
  cases hstep with
  | startLoop howner =>
    rw [howner] at howns
    -- no thread yet, so nothing is published
    have hthread : s.thread = .notStarted := by simpa [Owner.allows] using howns
    constructor
    · rw [h.ptr, hthread]
      rfl
    · rw [h.life, hthread]
      rfl
    · rfl
  | startLoopReturn howner hptr =>
    exact h.setOwner _ (ThreadFunc.started_of_published (h.ptr ▸ hptr))
  | dtorLoop howner hptr =>
    exact h.setOwner _ (ThreadFunc.started_of_published (h.ptr ▸ hptr))
  -- `startLoop` was not called, or the thread has cleared `loop_`
  | dtorNull howner hptr =>
    refine h.setOwner _ ?_
    rcases howner with howner | howner
    · rw [howner] at howns
      simpa [Owner.allows] using Or.inl (by simpa [Owner.allows] using howns)
    · rw [howner] at howns
      simpa [Owner.allows] using Or.inr howns
  | loadLoop howner | loadNull howner | storeQuit howner | checkThread howner | wakeup howner
  | join howner =>
    rw [howner] at howns
    exact h.setOwner _ howns
  | dtorEnd howner =>
    refine h.setOwner _ ?_
    rcases howner with howner | howner
    · rw [howner] at howns
      simpa [Owner.allows] using Or.inr howns
    · rw [howner] at howns
      exact howns
  | construct hthread =>
    exact h.setThread _ (by simp [hthread]) (by simp) (by simp [hthread, ThreadFunc.started])
      (by rw [h.ptr, hthread]; rfl) rfl
  | publish hthread =>
    exact h.setThread _ (by simp [hthread]) (by simp) (by simp [ThreadFunc.started]) rfl
      (by rw [h.life, hthread]; rfl)
  | enterLoop hthread =>
    exact h.setThread _ (by simp [hthread]) (by simp) (by simp [ThreadFunc.started])
      (by rw [h.ptr, hthread]; rfl) (by rw [h.life, hthread]; rfl)
  | inLoop e hthread he =>
    -- `loop()` returns or goes on
    rcases afterLoopStep_cases (s.loop.step e).pc with hafter | hafter
    · rw [hafter]
      exact h.setThread _ (by simp [hthread]) (by simp) (by simp [ThreadFunc.started])
        (by rw [h.ptr, hthread]; rfl) (by rw [h.life, hthread]; rfl)
    · rw [hafter]
      exact h.setThread _ (by simp [hthread]) (by simp) (by simp [ThreadFunc.started])
        (by rw [h.ptr, hthread]) (by rw [h.life, hthread])
  | clear hthread =>
    exact h.setThread _ (by simp [hthread]) (by simp) (by simp [ThreadFunc.started]) rfl
      (by rw [h.life, hthread]; rfl)
  | destroy hthread =>
    exact h.setThread _ (by simp [hthread]) (by simp) (by simp [ThreadFunc.started])
      (by rw [h.ptr, hthread]; rfl) rfl
  | other e hlife he => exact ⟨h.ptr, h.life, h.owner⟩

/-! ## quit is remembered -/

/-- `quit_` has been stored by the destructor. -/
def Owner.hasStored : Owner → Bool
  | .stored => true
  | .waking => true
  | .joining => true
  | .joined => true
  | _ => false

/-- The destructor's call of `quit` has returned. -/
def Owner.quitReturned : Owner → Bool
  | .joining => true
  | .joined => true
  | _ => false

/-- `threadFunc` has not left `loop()`; it may be about to enter it. -/
def ThreadFunc.notLeft : ThreadFunc → Bool
  | .notStarted => true
  | .constructing => true
  | .publishing => true
  | .entering => true
  | .looping => true
  | _ => false

/-- After `quit` has returned, `quit_` is true as long as `loop()` has not been
left. -/
def Remembers (s : EventLoopThread F) : Prop :=
  s.owner.quitReturned = true → s.thread.notLeft = true → s.loop.quit = true

/-- The destructor stores `quit_` only when the thread has entered `loop()`. -/
def QuitsEntered (s : EventLoopThread F) (e : Label F) : Prop :=
  e = .storeQuit → s.owner = .calling → s.thread ≠ .entering

/-- A stored `quit_` is not ahead of the entry of `loop()`, and stays. -/
structure Kept (s : EventLoopThread F) : Prop where
  inv : s.Inv
  entered : s.owner.hasStored = true → s.thread ≠ .entering
  quit : s.owner.hasStored = true → s.thread = .looping → s.loop.quit = true

/-- Where the destructor has stored `quit_`, `startLoop` has returned. -/
theorem Inv.started {s : EventLoopThread F} (h : s.Inv) (hstored : s.owner.hasStored = true) :
    s.thread.started = true := by
  have howns := h.owner
  cases howner : s.owner with
  | stored | waking | joining | joined =>
    rw [howner] at howns
    exact howns
  | _ => simp [howner, Owner.hasStored] at hstored

theorem Kept.remembers {s : EventLoopThread F} (h : s.Kept) : s.Remembers := by
  intro hreturned hleft
  have hstored : s.owner.hasStored = true := by
    cases howner : s.owner with
    | joining | joined => rfl
    | _ => simp [howner, Owner.quitReturned] at hreturned
  have hstarted := h.inv.started hstored
  cases hthread : s.thread with
  | looping => exact h.quit hstored hthread
  | entering => exact absurd hthread (h.entered hstored)
  | notStarted | constructing | publishing => simp [hthread, ThreadFunc.started] at hstarted
  | _ => simp [hthread, ThreadFunc.notLeft] at hleft

theorem Kept.step {s : EventLoopThread F} (h : s.Kept) {e : Label F} (he : s.QuitsEntered e) :
    (s.step e).Kept := by
  have hinv := h.inv.step e
  rcases step_cases s e with hstutter | hstep
  · rw [hstutter]
    exact h
  generalize s.step e = s' at hinv hstep
  cases hstep with
  | startLoop | startLoopReturn | dtorLoop | dtorNull | loadLoop | loadNull | dtorEnd =>
    -- nothing is stored
    exact ⟨hinv, by simp [Owner.hasStored], by simp [Owner.hasStored]⟩
  -- this is what `QuitsEntered` asks
  | storeQuit howner => exact ⟨hinv, fun _ => he rfl howner, fun _ _ => rfl⟩
  | checkThread howner | wakeup howner | join howner =>
    have hstored : s.owner.hasStored = true := by rw [howner]; rfl
    exact ⟨hinv, fun _ => h.entered hstored, fun _ => h.quit hstored⟩
  | construct hthread | publish hthread =>
    -- the destructor is not there yet
    constructor
    · exact hinv
    · intro hstored
      have hstarted := h.inv.started hstored
      simp [hthread, ThreadFunc.started] at hstarted
    · intro hstored
      have hstarted := h.inv.started hstored
      simp [hthread, ThreadFunc.started] at hstarted
  -- the entry clears `quit_`, but nothing has been stored
  | enterLoop hthread =>
    exact ⟨hinv, by simp, fun hstored => absurd hthread (h.entered hstored)⟩
  | inLoop e hthread hin =>
    refine ⟨hinv, ?_, ?_⟩
    · intro _
      rcases afterLoopStep_cases (s.loop.step e).pc with hafter | hafter
      · simp [hafter]
      · simp [hafter]
    · intro hstored _
      exact EventLoop.step_quit (Or.inl hin) (h.quit hstored hthread)
  | clear | destroy => exact ⟨hinv, by simp, by simp⟩
  | other e _ hother =>
    refine ⟨hinv, h.entered, ?_⟩
    intro hstored hthread
    exact EventLoop.step_quit (Or.inr hother) (h.quit hstored hthread)

theorem new_kept : (new : EventLoopThread F).Kept :=
  ⟨new_inv, by simp [new], by simp [new]⟩

/-! ## quit is forgotten -/

/-- Before `threadFunc` calls it, `loop()` has not begun. -/
def Unentered (s : EventLoopThread F) : Prop :=
  s.thread = .publishing ∨ s.thread = .entering →
    s.loop.pc = .outside ∧ s.loop.queueing = false

theorem other_pc {s : EventLoop F} {e : EventLoop.Label F} (he : e.fromOther = true) :
    (s.step e).pc = s.pc ∧ (s.step e).queueing = s.queueing := by
  cases e with
  | push tid cb =>
    simp only [EventLoop.step]
    split
    · exact ⟨rfl, rfl⟩
    · exact ⟨rfl, rfl⟩
  | quit tid =>
    simp only [EventLoop.step]
    split
    · exact ⟨rfl, rfl⟩
    · exact ⟨rfl, rfl⟩
  | wakeup tid =>
    simp only [EventLoop.step]
    split
    · exact ⟨rfl, rfl⟩
    · exact ⟨rfl, rfl⟩
  | _ => simp [EventLoop.Label.fromOther] at he

theorem Unentered.step {s : EventLoopThread F} (h : s.Unentered) (e : Label F) :
    (s.step e).Unentered := by
  apply covers.elim h
  intro s' hstep
  cases hstep with
  | construct => exact fun _ => ⟨rfl, rfl⟩
  | publish hthread => exact fun _ => h (Or.inl hthread)
  | inLoop e =>
    intro hthread
    rcases afterLoopStep_cases (s.loop.step e).pc with hafter | hafter
    · simp [hafter] at hthread
    · simp [hafter] at hthread
  | other e _ hother =>
    intro hthread
    rcases other_pc (s := s.loop) hother with ⟨hpc, hqueueing⟩
    rw [hpc, hqueueing]
    exact h hthread
  | startLoop | enterLoop | clear | destroy => simp [Unentered]
  | _ => exact h

theorem new_unentered : (new : EventLoopThread F).Unentered := by simp [Unentered, new]

/-- Where the destructor stores `quit_` too early, the entry of `loop()` undoes
it: the next steps of the two threads leave the loop running. -/
theorem early_quit_undone {s : EventLoopThread F} (hs : s.Unentered) {e : Label F}
    (h : ¬ s.QuitsEntered e) :
    ¬ Remembers (run step (s.step e) [.checkThread, .wakeup, .enterLoop]) := by
  simp only [QuitsEntered, Classical.not_imp, not_not] at h
  rcases h with ⟨rfl, howner, hthread⟩
  rcases hs (Or.inr hthread) with ⟨hpc, hqueueing⟩
  -- `quit_ = false` at the top of `loop()` comes after the store
  have hlast : run step (s.step .storeQuit) [.checkThread, .wakeup, .enterLoop] =
      { s with owner := .joining, thread := .looping,
               loop := { s.loop.wakeup with quit := false, pc := .test } } := by
    simp [step, howner, hthread, EventLoop.step, EventLoop.loopStep, EventLoop.wakeup, hpc,
      hqueueing]
  rw [hlast]
  intro hremembers
  have hquit := hremembers rfl rfl
  cases hquit

/-- In every run in which the destructor's `quit` finds the thread inside
`loop()`, or past it, the call is not forgotten; after any other one the two
threads can go on to forget it. -/
theorem quit_remembered (es : List (Label F)) :
    (EachStep step new QuitsEntered es → Always step new Remembers es) ∧
      ∀ e, ¬ QuitsEntered (run step new es) e →
        ∃ es', ¬ Always step new Remembers (es ++ e :: es') := by
  constructor
  · intro h
    have hkept : Always step new Kept es :=
      always_of_eachStep new_kept (fun _ _ hs he => hs.step he) h
    exact hkept.mono fun _ hs => hs.remembers
  · intro e h
    have hs := run_invariant Unentered (fun _ e h => Unentered.step h e) new_unentered es
    refine ⟨[.checkThread, .wakeup, .enterLoop], fun halways => ?_⟩
    -- the last state of that run does not remember
    have hlast := halways.last
    rw [run_append] at hlast
    exact early_quit_undone hs h hlast

/-- The owner destroys the thread right after `startLoop` has returned. -/
theorem quit_forgotten : ¬ Always step (new : EventLoopThread Nat) Remembers
    [.startLoop, .construct, .publish, .startLoopReturn, .dtor, .loadLoop, .storeQuit,
      .checkThread, .wakeup, .enterLoop] := by
  intro h
  exact absurd (h.last rfl rfl) (by decide)

end EventLoopThread

end EchoServer
