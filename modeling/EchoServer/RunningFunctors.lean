import EchoServer.DeadFunctors

/-!
# Functors of `send` and `shutdown` while they run

`doPendingFunctors` calls a functor, and until the call returns the other threads go
on: one of them can drop the last pointer to the connection while `sendInLoop` is still
working on it. So the call of such a functor, what it does, and its return are steps
of their own here.

* `Executing`: a server, and where the thread of each loop is in such a call;
* `owned_step`: the functors that wait or run are on connections that exist after a
  step exactly when the step leaves those an owner;
* `functors_run_on_owned`: then each of them has an owner from its call to its return.

`functor_run_on_destroyed` is a run in which one has none: a thread is past the test in
`send` while the connection closes, queues its functor, and drops its pointer.
-/

namespace EchoServer

open Runs

/-- Where the thread of a loop is in a functor of `send` or `shutdown`. -/
inductive Body where
  | idle
  /-- It has called the functor, and has not done what this is about. -/
  | called (f : BoundFunctor)
  /-- It has, and has not returned. -/
  | returning (f : BoundFunctor)
deriving DecidableEq, Repr

namespace Body

/-- The functor that is being executed. -/
def running : Body → Option BoundFunctor
  | .idle => none
  | .called f => some f
  | .returning f => some f

/-- The thread can take a step that executes `g`. -/
def allows : Body → Option BoundFunctor → Bool
  | .idle, g => g.isNone
  | .called f, g => g == some f
  | .returning _, _ => false

/-- After a step of the thread. -/
def next : Body → Body
  | .called f => .returning f
  | b => b

@[simp] theorem running_next (b : Body) : b.next.running = b.running := by
  cases b with
  | idle | called | returning => rfl

end Body

structure Executing (k : Nat) where
  server : Server k
  body : Fin (k + 1) → Body

namespace Executing

open Server

variable {k : Nat}

/-! ## Steps -/

inductive Label (k : Nat) where
  /-- The thread calls the next functor of the batch, one of `send` or `shutdown`. -/
  | call (ℓ : Fin (k + 1))
  | server (e : Server.Label k)
  | functorReturn (ℓ : Fin (k + 1))

/-- The loop in whose thread the step is taken. A `TcpServer` is used in the thread of
its base loop. -/
def thread : Server.Label k → Option (Fin (k + 1))
  | .loop ℓ _ => some ℓ
  | .accept _ _ _ _ _ _ => some baseLoop
  | .dtor => some baseLoop
  | .destroyConn _ _ => some baseLoop
  | .dtorEnd => some baseLoop
  | _ => none

/-- A functor of `send` or `shutdown`. -/
def bareOnly (f : Option BoundFunctor) : Option BoundFunctor :=
  f.filter fun f => !f.functor.owning

/-- A thread in such a functor does nothing else, and does not do it uncalled. -/
def Enabled (s : Executing k) (e : Server.Label k) : Prop :=
  ∀ ℓ ∈ thread e, (s.body ℓ).allows (bareOnly (s.server.executed e)) = true

instance (s : Executing k) (e : Server.Label k) : Decidable (s.Enabled e) := by
  unfold Enabled
  infer_instance

def setBody (s : Executing k) (ℓ : Fin (k + 1)) (b : Body) : Executing k :=
  { s with body := Function.update s.body ℓ b }

/-- `body` after a step of the server. -/
def bodyAfter (s : Executing k) (e : Server.Label k) (ℓ : Fin (k + 1)) : Body :=
  if thread e = some ℓ then (s.body ℓ).next else s.body ℓ

def step (s : Executing k) : Label k → Executing k
  | .call ℓ =>
    match s.body ℓ, bareOnly (s.server.nextFunctor ℓ) with
    | .idle, some f => s.setBody ℓ (.called f)
    | _, _ => s
  | .server e => if s.Enabled e then ⟨s.server.step e, s.bodyAfter e⟩ else s
  | .functorReturn ℓ =>
    match s.body ℓ with
    | .returning _ => s.setBody ℓ .idle
    | _ => s

def init (k : Nat) (name : List Char) (listenAddr : InetAddress) : Executing k where
  server := Server.init k name listenAddr
  body := fun _ => .idle

/-! ## The condition -/

/-- Every functor of `send` or `shutdown` that is being executed has an owner of its
connection. -/
def RunsOwned (s : Executing k) : Prop :=
  ∀ ℓ, ∀ f ∈ (s.body ℓ).running, s.server.Held f.conn

instance : DecidablePred (RunsOwned (k := k)) := by
  intro s
  unfold RunsOwned
  infer_instance

/-- Of the connections with a functor of `send` or `shutdown` that is being executed,
or waits in a loop that has not left `loop()`, none loses its last owner in the step. -/
def LeavesOwner (s : Executing k) : Label k → Prop
  | .server e => s.Enabled e → s.server.LeavesOwner e ∧
      ∀ ℓ, ∀ f ∈ (s.body ℓ).running, s.server.Held f.conn → s.server.Outlives f.conn e
  | .call _ => True
  | .functorReturn _ => True

instance (s : Executing k) : (e : Label k) → Decidable (s.LeavesOwner e)
  | .server e => inferInstanceAs (Decidable (s.Enabled e → s.server.LeavesOwner e ∧
      ∀ ℓ, ∀ f ∈ (s.body ℓ).running, s.server.Held f.conn → s.server.Outlives f.conn e))
  | .call _ => inferInstanceAs (Decidable True)
  | .functorReturn _ => inferInstanceAs (Decidable True)

/-- All of them, waiting or running, are on connections that exist. -/
structure Owned (s : Executing k) : Prop where
  waiting : s.server.BareOwned
  running : s.RunsOwned

/-! ## What steps do to the calls -/

section
variable {s : Executing k}

theorem running_bodyAfter (s : Executing k) (e : Server.Label k) (ℓ : Fin (k + 1)) :
    (s.bodyAfter e ℓ).running = (s.body ℓ).running := by
  unfold bodyAfter
  split
  · exact Body.running_next _
  · rfl

/-- The functor that is called has waited in the batch. -/
theorem mem_bare_of_next {ℓ : Fin (k + 1)} {f : BoundFunctor}
    (h : bareOnly (s.server.nextFunctor ℓ) = some f) :
    (s.server.loops ℓ).phase ≠ .exited ∧ f ∈ (s.server.loops ℓ).bare := by
  obtain ⟨hnext, hbare⟩ := Option.filter_eq_some_iff.mp h
  unfold nextFunctor at hnext
  split at hnext
  · have hrest : f ∈ (s.server.loops ℓ).phase.rest := List.mem_of_mem_head? hnext
    refine ⟨?_, mem_bare.mpr ⟨Or.inl hrest, by simpa using hbare⟩⟩
    intro hexited
    simp [hexited, Phase.rest] at hrest
  · cases hnext

theorem Owned.setBody (h : s.Owned) {ℓ : Fin (k + 1)} {b : Body}
    (hb : ∀ f ∈ b.running, s.server.Held f.conn) : (s.setBody ℓ b).Owned := by
  refine ⟨h.waiting, ?_⟩
  intro ℓ' f hf
  have hf' : f ∈ (Function.update s.body ℓ b ℓ').running := hf
  by_cases hℓ : ℓ' = ℓ
  · rw [hℓ, Function.update_self] at hf'
    exact hb f hf'
  · rw [Function.update_of_ne hℓ] at hf'
    exact h.running ℓ' f hf'

theorem Owned.call (h : s.Owned) (ℓ : Fin (k + 1)) : (s.step (.call ℓ)).Owned := by
  simp only [step]
  split
  · rename_i f _ hnext
    obtain ⟨hrun, hmem⟩ := mem_bare_of_next hnext
    apply h.setBody
    intro g hg
    obtain rfl := Option.some.inj hg
    exact h.waiting ℓ hrun _ hmem
  · exact h

theorem Owned.functorReturn (h : s.Owned) (ℓ : Fin (k + 1)) :
    (s.step (.functorReturn ℓ)).Owned := by
  simp only [step]
  split
  · apply h.setBody
    intro g hg
    cases hg
  · exact h

/-- From a state where all of them are on connections that exist, a step leads to such a
state exactly when it takes no last owner. -/
theorem owned_step (hs : s.server.CallInv) (h : s.Owned) (e : Label k) :
    (s.step e).Owned ↔ s.LeavesOwner e := by
  cases e with
  | call ℓ => exact ⟨fun _ => trivial, fun _ => h.call ℓ⟩
  | functorReturn ℓ => exact ⟨fun _ => trivial, fun _ => h.functorReturn ℓ⟩
  | server e =>
    -- a thread inside such a functor is not free for every step
    by_cases henabled : s.Enabled e
    · have hstep : s.step (.server e) = ⟨s.server.step e, s.bodyAfter e⟩ := if_pos henabled
      rw [hstep]
      constructor
      · intro hnext _
        refine ⟨(bareOwned_step hs h.waiting e).mp hnext.waiting, ?_⟩
        intro ℓ f hf hheld
        have hf' : f ∈ (s.bodyAfter e ℓ).running := by
          rw [running_bodyAfter]
          exact hf
        exact outlives_of_held hs hheld (hnext.running ℓ f hf')
      · intro hleaves
        obtain ⟨hwaiting, hrunning⟩ := hleaves henabled
        refine ⟨(bareOwned_step hs h.waiting e).mpr hwaiting, ?_⟩
        intro ℓ f hf
        have hf' : f ∈ (s.body ℓ).running := by
          rw [← running_bodyAfter s e]
          exact hf
        exact held_of_outlives hs (hrunning ℓ f hf' (h.running ℓ f hf'))
    · have hstutter : s.step (.server e) = s := if_neg henabled
      rw [hstutter]
      exact ⟨fun _ hnow => absurd hnow henabled, fun _ => h⟩

theorem callInv_step (hs : s.server.CallInv) (e : Label k) : (s.step e).server.CallInv := by
  cases e with
  | call ℓ =>
    simp only [step]
    split
    · exact hs
    · exact hs
  | server e =>
    simp only [step]
    split
    · exact hs.step e
    · exact hs
  | functorReturn ℓ =>
    simp only [step]
    split
    · exact hs
    · exact hs

end

/-! ## Every run -/

/-- The functors of `send` and `shutdown` that wait in a running loop or are being
executed are on connections that exist, throughout a run, exactly when no step takes
the last owner of such a connection. -/
theorem bare_functors_owned_iff (name : List Char) (listenAddr : InetAddress)
    (es : List (Label k)) :
    Always step (init k name listenAddr) Owned es ↔
      EachStep step (init k name listenAddr) LeavesOwner es := by
  refine always_iff_eachStep (fun s => s.server.CallInv) (init_callInv k name listenAddr)
    (fun s e hs _ => callInv_step hs e) ?_ (fun s e hs h => owned_step hs h e) es
  refine ⟨init_bareOwned k name listenAddr, ?_⟩
  intro ℓ f hf
  cases hf

/-- Where no step takes the last owner away, every functor of `send` and `shutdown` that
is executed has an owner of its connection, from its call to its return. -/
theorem functors_run_on_owned (name : List Char) (listenAddr : InetAddress) (es : List (Label k))
    (h : EachStep step (init k name listenAddr) LeavesOwner es) :
    Always step (init k name listenAddr) RunsOwned es :=
  ((bare_functors_owned_iff name listenAddr es).mpr h).mono fun _ hs => hs.running

/-- A connection of this loop is accepted and established there. -/
def acceptedSteps (ℓ : Fin (k + 1)) (us : List UserCall) : List (Label k) :=
  [.server (.loop baseLoop (.poll [])), .server (.accept 5 ℓ false false 0 []),
    .server (.loop ℓ (.poll [])), .server (.loop ℓ .startFunctors),
    .server (.loop ℓ (.functor (fun _ => 0) { quiet with onConnection := us })),
    .server (.loop ℓ .endFunctors)]

/-- The functor of a `shutdown` called from the UP notification. -/
theorem functors_run_on_owned_shutdown :
    Always step (init 1 ['e'] ⟨fun _ => 0#8, 80#16⟩) RunsOwned
      (acceptedSteps 1 [.shutdown] ++
        [.server (.loop 1 (.poll [])), .server (.loop 1 .startFunctors), .call 1,
          .server (.loop 1 (.functor (fun _ => 0) quiet)), .functorReturn 1,
          .server (.loop 1 .endFunctors)]) :=
  functors_run_on_owned ['e'] ⟨fun _ => 0#8, 80#16⟩ _ (by decide)

/-- The peer hangs up while thread 7 is past the test in `send`, and the connection is
destroyed but for the pointer of that thread. -/
def hangUpSteps (ℓ : Fin (k + 1)) : List (Label k) :=
  [.server (.loop baseLoop .startFunctors), .server (.loop baseLoop .endFunctors),
    .server (.hold 7 1), .server (.send 7 1 ⟨0, 1, [1]⟩),
    -- `handleClose`
    .server (.loop ℓ (.poll [(5, EPOLLHUP)])), .server (.loop ℓ .handle),
    .server (.loop ℓ (.part quiet)), .server (.loop ℓ .handled),
    -- `removeConnectionInLoop`
    .server (.loop baseLoop (.poll [])), .server (.loop baseLoop .startFunctors),
    .server (.loop baseLoop (.functor (fun _ => 0) quiet)),
    .server (.loop baseLoop .endFunctors),
    -- `connectDestroyed`, in a batch that ends
    .server (.loop ℓ .startFunctors), .server (.loop ℓ (.functor (fun _ => 0) quiet)),
    .server (.loop ℓ .endFunctors)]

/-- Thread 7 queues its functor after the batch of `connectDestroyed` has ended, and
drops its pointer before the functor is called. -/
theorem functor_run_on_destroyed :
    ¬ Always step (init 1 ['e'] ⟨fun _ => 0#8, 80#16⟩) RunsOwned
      (acceptedSteps 1 [] ++ hangUpSteps 1 ++
        [.server (.sendQueue 7), .server (.drop 7 1), .server (.loop 1 (.poll [])),
          .server (.loop 1 .startFunctors), .call 1]) := by
  decide

-- it drops its pointer while the functor runs
example : ¬ Always step (init 1 ['e'] ⟨fun _ => 0#8, 80#16⟩) RunsOwned
    (acceptedSteps 1 [] ++ hangUpSteps 1 ++
      [.server (.sendQueue 7), .server (.loop 1 (.poll [])), .server (.loop 1 .startFunctors),
        .call 1, .server (.drop 7 1)]) := by
  decide

end Executing

end EchoServer
