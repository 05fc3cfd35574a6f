import EchoServer.ServerFrames

/-!
# Functors bound to a bare pointer

`send` and `shutdown` bind `this` itself, so their functors do not keep the
connection alive. They wait for connections that exist exactly as long as no step
takes the last owner of one away (`bareOwned_step`).

* `CallInv`: a thread that calls a connection holds it;
* `Step.bare`: where the waiting functors of a step come from;
* `Step.bare_kept`: a step that takes owners away leaves them where they are.
-/

namespace EchoServer

open Runs Trace

/-- The functors of `send` and `shutdown` that wait in the loop. -/
def ServerLoop.bare (l : ServerLoop) : List BoundFunctor :=
  l.queue.filter fun f => !f.functor.owning

namespace Server

variable {k : Nat}

/-! ## The condition -/

/-- Of the connections with a functor of `send` or `shutdown` waiting in a loop
that has not left `loop()`, none loses its last owner in the step. -/
def LeavesOwner (s : Server k) (e : Label k) : Prop :=
  ∀ ℓ, (s.loops ℓ).phase ≠ .exited →
    ∀ f ∈ (s.loops ℓ).bare, s.Held f.conn → s.Outlives f.conn e

instance (s : Server k) (e : Label k) : Decidable (s.LeavesOwner e) := by
  unfold LeavesOwner
  infer_instance

/-- The functor that `doPendingFunctors` comes to next. -/
def nextFunctor (s : Server k) (ℓ : Fin (k + 1)) : Option BoundFunctor :=
  if s.LoopFree ℓ then (s.loops ℓ).phase.rest.head? else none

/-- The functor that it executes in the step. -/
def executed (s : Server k) : Label k → Option BoundFunctor
  | .loop ℓ (.functor _ _) => s.nextFunctor ℓ
  | _ => none

/-- Every functor of `send` or `shutdown` that waits in a loop that has not left
`loop()` is bound to a connection that exists. -/
def BareOwned (s : Server k) : Prop :=
  ∀ ℓ, (s.loops ℓ).phase ≠ .exited → ∀ f ∈ (s.loops ℓ).bare, s.Held f.conn

/-! ## Callers hold what they call -/

/-- A thread in a call holds a pointer to the connection. -/
structure CallInv (s : Server k) : Prop where
  ids : s.Ids
  callers : ∀ tid, (s.calls tid).pc ≠ .idle → (tid, (s.calls tid).conn) ∈ s.users

/-- Thread `tid` moves on in a call on a connection it holds. -/
theorem callers_setCall {s : Server k}
    (h : ∀ tid, (s.calls tid).pc ≠ .idle → (tid, (s.calls tid).conn) ∈ s.users) {tid : Nat}
    {call : Call} (hcall : call.pc ≠ .idle → (tid, call.conn) ∈ s.users) :
    ∀ tid', ((s.setCall tid call).calls tid').pc ≠ .idle →
      (tid', ((s.setCall tid call).calls tid').conn) ∈ (s.setCall tid call).users := by
  intro tid'
  by_cases htid : tid' = tid
  · subst htid
    simpa [setCall] using hcall
  · simpa [setCall, Function.update_of_ne htid] using h tid'

theorem Step.callers {s s' : Server k} (hs : s.CallInv) {e : Label k} (h : Step s e s') :
    ∀ tid, (s'.calls tid).pc ≠ .idle → (tid, (s'.calls tid).conn) ∈ s'.users := by
  have hsame : SameThreads s s' →
      ∀ tid, (s'.calls tid).pc ≠ .idle → (tid, (s'.calls tid).conn) ∈ s'.users := by
    intro hthreads
    rw [hthreads.users, hthreads.calls]
    exact hs.callers
  cases h with
  | loop ℓ e hfree hstep => exact hsame hstep.threads
  | accept fd ioLoop wc hw mark us hcan =>
    exact hsame (newConnection_threads s fd ioLoop wc hw mark us)
  | destroyLoop ℓ hphase => exact hs.callers
  | dtor hlife => exact hs.callers
  | destroyConn name us c sc hlife hlookup hconn =>
    exact hsame (destroyConnection_threads s name c sc us)
  | dtorEnd hlife hempty => exact hs.callers
  | hold tid c hheld => exact fun tid' hpc => List.mem_cons_of_mem _ (hs.callers tid' hpc)
  | drop tid c hidle =>
    intro tid' hpc
    refine List.mem_filter.mpr ⟨hs.callers tid' hpc, ?_⟩
    have hne : tid' ≠ tid := by
      rintro rfl
      exact hpc hidle
    simp [hne]
  | send tid c buf hidle huser hstate => exact callers_setCall hs.callers fun _ => huser
  | sendQueue tid c buf hcall =>
    refine callers_setCall ?_ fun hpc => absurd rfl hpc
    rw [(queueForConn_threads s _).users, (queueForConn_threads s _).calls]
    exact hs.callers
  | shutdown tid c hidle huser hstate => exact callers_setCall hs.callers fun _ => huser
  | shutdownStore tid c hcall =>
    have huser := hs.callers tid (by simp [hcall])
    rw [hcall] at huser
    refine callers_setCall ?_ fun _ => ?_
    · rw [(storeDisconnecting_threads s c).users, (storeDisconnecting_threads s c).calls]
      exact hs.callers
    · rw [(storeDisconnecting_threads s c).users]
      exact huser
  | shutdownQueue tid c hcall =>
    refine callers_setCall ?_ fun hpc => absurd rfl hpc
    rw [(queueForConn_threads s _).users, (queueForConn_threads s _).calls]
    exact hs.callers

theorem CallInv.step {s : Server k} (hs : s.CallInv) (e : Label k) : (s.step e).CallInv where
  ids := hs.ids.step e
  callers := by
    rcases step_cases s e with hstutter | hstep
    · rw [hstutter]
      exact hs.callers
    · exact hstep.callers hs

theorem init_callInv (k : Nat) (name : List Char) (listenAddr : InetAddress) :
    (init k name listenAddr).CallInv where
  ids := init_ids k name listenAddr
  callers tid := by simp [init]

/-! ## Where the functors come from -/

theorem mem_bare {l : ServerLoop} {f : BoundFunctor} :
    f ∈ l.bare ↔ (f ∈ l.phase.rest ∨ f ∈ l.pending) ∧ f.functor.owning = false := by
  rw [ServerLoop.bare, ServerLoop.queue, List.mem_filter, List.mem_append]
  simp

theorem bare_setPhase {s : Server k} {ℓ : Fin (k + 1)} {p : Phase}
    (hrest : ∀ f ∈ p.rest, f ∈ (s.loops ℓ).phase.rest) {ℓ' : Fin (k + 1)} {f : BoundFunctor}
    (hf : f ∈ ((s.setPhase ℓ p).loops ℓ').bare) : f ∈ (s.loops ℓ').bare := by
  by_cases hℓ : ℓ' = ℓ
  · subst hℓ
    rw [setPhase, setLoop_loops_self, mem_bare] at hf
    obtain ⟨hf | hf, hbare⟩ := hf
    · exact mem_bare.mpr ⟨Or.inl (hrest f hf), hbare⟩
    · exact mem_bare.mpr ⟨Or.inr hf, hbare⟩
  · rwa [setPhase, setLoop_loops_ne s _ hℓ] at hf

/-- An owning functor is none of them. -/
theorem bare_queueInLoop {s : Server k} {ℓ : Fin (k + 1)} {g : BoundFunctor} {ℓ' : Fin (k + 1)}
    {f : BoundFunctor} (hf : f ∈ ((s.queueInLoop ℓ g).loops ℓ').bare) :
    f ∈ (s.loops ℓ').bare ∨ f = g ∧ g.functor.owning = false := by
  by_cases hℓ : ℓ' = ℓ
  · subst hℓ
    rw [queueInLoop, setLoop_loops_self, mem_bare] at hf
    obtain ⟨hf | hf, hbare⟩ := hf
    · exact Or.inl (mem_bare.mpr ⟨Or.inl hf, hbare⟩)
    · rcases List.mem_append.mp hf with hf | hf
      · exact Or.inl (mem_bare.mpr ⟨Or.inr hf, hbare⟩)
      · obtain rfl := List.mem_singleton.mp hf
        exact Or.inr ⟨rfl, hbare⟩
  · rw [queueInLoop, setLoop_loops_ne s _ hℓ] at hf
    exact Or.inl hf

theorem bare_onConn {s : Server k} {c : ConnId} {op : Conn → Conn} {ℓ : Fin (k + 1)}
    {f : BoundFunctor} (hf : f ∈ ((s.onConn c op).loops ℓ).bare) :
    f ∈ (s.loops ℓ).bare ∨ f.conn = c := by
  cases hconn : s.conns c with
  | none =>
    rw [onConn_of_none hconn] at hf
    exact Or.inl hf
  | some sc =>
    have hreplay := onConn_cases hconn op
    obtain ⟨hf, hbare⟩ := mem_bare.mp hf
    rw [hreplay.phase, store_phase] at hf
    rcases hf with hf | hf
    · exact Or.inl (mem_bare.mpr ⟨Or.inl hf, hbare⟩)
    · rcases (hreplay.pending ℓ).mem_or hf with hf | hnew
      · rw [store_pending] at hf
        exact Or.inl (mem_bare.mpr ⟨Or.inr hf, hbare⟩)
      · exact Or.inr hnew.1

theorem bare_removeConnectionInLoop {s : Server k} {c : ConnId} {ℓ : Fin (k + 1)}
    {f : BoundFunctor} (hf : f ∈ ((s.removeConnectionInLoop c).loops ℓ).bare) :
    f ∈ (s.loops ℓ).bare := by
  unfold removeConnectionInLoop at hf
  split at hf
  · rcases bare_queueInLoop hf with hf | ⟨_, howning⟩
    · exact hf
    · cases howning
  · exact hf

theorem bare_execute {s : Server k} {g : BoundFunctor} {mem : Nat → Byte} {a : Conn.Answers}
    {ℓ : Fin (k + 1)} {f : BoundFunctor} (hf : f ∈ ((s.execute g mem a).loops ℓ).bare) :
    f ∈ (s.loops ℓ).bare ∨ f.conn = g.conn ∧ s.Held g.conn := by
  unfold execute at hf
  split at hf
  · rename_i hheld
    have hor : f ∈ (s.loops ℓ).bare ∨ f.conn = g.conn →
        f ∈ (s.loops ℓ).bare ∨ f.conn = g.conn ∧ s.Held g.conn := by
      rintro (h | h)
      · exact Or.inl h
      · exact Or.inr ⟨h, hheld⟩
    unfold call at hf
    split at hf
    · exact hor (bare_onConn hf)
    · exact hor (bare_onConn hf)
    · exact hor (bare_onConn hf)
    · exact hor (bare_onConn hf)
    · exact Or.inl (bare_removeConnectionInLoop hf)
    · exact Or.inl hf
    · exact Or.inl hf
    · exact Or.inl hf
  · exact Or.inl hf

/-- The steps of a loop thread that queue functors do so for a connection that
exists, and take no owner away. -/
theorem LoopStep.bare {s s' : Server k} {ℓ : Fin (k + 1)} {e : LoopLabel}
    (h : LoopStep s ℓ e s') {ℓ' : Fin (k + 1)} {f : BoundFunctor}
    (hf : f ∈ (s'.loops ℓ').bare) :
    f ∈ (s.loops ℓ').bare ∨ s.Held f.conn ∧ s.givenUp f.conn (.loop ℓ e) = [] := by
  cases h with
  | poll ready hphase => exact Or.inl (bare_setPhase (by simp [Phase.rest]) hf)
  | handle c revents active hphase hheld => exact Or.inl (bare_setPhase (by simp [Phase.rest]) hf)
  | handleDead c revents active hphase hdead =>
    exact Or.inl (bare_setPhase (by simp [Phase.rest]) hf)
  | part c p rest active a hphase =>
    rcases bare_onConn hf with hf | rfl
    · exact Or.inl (bare_setPhase (by simp [Phase.rest]) hf)
    · exact Or.inr ⟨⟨.guard ℓ, by simp [Owns, hphase, Phase.guarded]⟩, rfl⟩
  | handled c active hphase => exact Or.inl (bare_setPhase (by simp [Phase.rest]) hf)
  | startFunctors hphase =>
    by_cases hℓ : ℓ' = ℓ
    · subst hℓ
      rw [setLoop_loops_self, mem_bare] at hf
      refine Or.inl (mem_bare.mpr ⟨Or.inr ?_, hf.2⟩)
      simpa [Phase.rest] using hf.1
    · rw [setLoop_loops_ne s _ hℓ] at hf
      exact Or.inl hf
  | functor done rest g mem a hphase =>
    have hset : ∀ g' ∈ (Phase.functors (done ++ [g]) rest).rest, g' ∈ (s.loops ℓ).phase.rest := by
      intro g' hg'
      rw [hphase]
      exact List.mem_cons_of_mem _ hg'
    have hpass : Passes s (s.setPhase ℓ (.functors (done ++ [g]) rest)) :=
      setPhase_passes (by rw [hphase]; simp [Phase.batch]) (by rw [hphase]; rfl)
    rcases bare_execute hf with hf | ⟨heq, hheld⟩
    · exact Or.inl (bare_setPhase hset hf)
    · rw [heq]
      exact Or.inr ⟨hpass.held _ hheld, rfl⟩
  | endFunctors done hphase => exact Or.inl (bare_setPhase (by simp [Phase.rest]) hf)
  | userCall c u hpolling hexited hlives =>
    rcases bare_onConn hf with hf | rfl
    · exact Or.inl hf
    · exact Or.inr ⟨hlives.1, rfl⟩
  | exit hphase => exact Or.inl (bare_setPhase (by simp [Phase.rest]) hf)

theorem bare_queueForConn {s : Server k} {g : BoundFunctor} {ℓ : Fin (k + 1)} {f : BoundFunctor}
    (hf : f ∈ ((s.queueForConn g).loops ℓ).bare) : f ∈ (s.loops ℓ).bare ∨ f = g := by
  unfold queueForConn at hf
  split at hf
  · rcases bare_queueInLoop hf with hf | ⟨heq, _⟩
    · exact Or.inl hf
    · exact Or.inr heq
  · exact Or.inl hf

theorem bare_storeDisconnecting (s : Server k) (c : ConnId) (ℓ : Fin (k + 1)) :
    ((s.storeDisconnecting c).loops ℓ).bare = (s.loops ℓ).bare := by
  unfold storeDisconnecting
  split
  · rfl
  · rfl

/-- `~TcpServer` queues none of them. -/
theorem bare_destroyConnection {s : Server k} {name : List Char} {c : ConnId}
    {sc : ServerConn k} (hconn : s.conns c = some sc) {us : List UserCall} {ℓ : Fin (k + 1)}
    {f : BoundFunctor} (hf : f ∈ ((s.destroyConnection name c sc us).loops ℓ).bare) :
    f ∈ (s.loops ℓ).bare := by
  unfold destroyConnection at hf
  split at hf
  · rw [onConn_connectDestroyed (s := s.eraseConnection name) hconn us, mem_bare, store_phase,
      store_pending] at hf
    exact mem_bare.mpr hf
  · rcases bare_queueInLoop hf with hf | ⟨_, howning⟩
    · exact hf
    · cases howning

theorem bare_newConnection {s : Server k} (hs : s.Ids) (hcounter : s.nextConnId + 1 < 2 ^ 31)
    {fd : Nat} {ioLoop : Fin (k + 1)} {wc hw : Bool} {mark : Nat} {us : List UserCall}
    {ℓ : Fin (k + 1)} {f : BoundFunctor}
    (hf : f ∈ ((s.newConnection fd ioLoop wc hw mark us).loops ℓ).bare) :
    f ∈ (s.loops ℓ).bare ∨ (s.newConnection fd ioLoop wc hw mark us).Held f.conn := by
  have hnew := (newConnection_held hs hcounter fd ioLoop wc hw mark us s.nextConnId).mpr
    (Or.inr rfl)
  unfold newConnection at hf
  split at hf
  · rcases bare_onConn hf with hf | heq
    · exact Or.inl hf
    · rw [heq]
      exact Or.inr hnew
  · rcases bare_queueInLoop hf with hf | ⟨_, howning⟩
    · exact Or.inl hf
    · cases howning

theorem Step.bare {s s' : Server k} (hs : s.CallInv) {e : Label k} (h : Step s e s')
    {ℓ : Fin (k + 1)} {f : BoundFunctor} (hf : f ∈ (s'.loops ℓ).bare) :
    f ∈ (s.loops ℓ).bare ∨ s'.Held f.conn := by
  -- a call queues its functor while the calling thread holds the connection
  have hcaller : ∀ tid, (s.calls tid).pc ≠ .idle → s.Held (s.calls tid).conn :=
    fun tid hpc => ⟨.user tid, hs.callers tid hpc⟩
  have hstep := h
  cases h with
  | loop ℓ' e hfree hloop =>
    rcases hloop.bare hf with hold | ⟨hheld, hnone⟩
    · exact Or.inl hold
    · have hout := hstep.outcome hs.ids (by simp)
      exact Or.inr ((hout.alive _).mpr ((outlives_iff_held hnone).mpr hheld))
  | accept fd ioLoop wc hw mark us hcan => exact bare_newConnection hs.ids hcan.2.2.2.1 hf
  | destroyLoop ℓ' hphase =>
    by_cases hℓ : ℓ = ℓ'
    · subst hℓ
      rw [setLoop_loops_self, mem_bare] at hf
      exact Or.inl (mem_bare.mpr ⟨Or.inl (by simpa using hf.1), hf.2⟩)
    · rw [setLoop_loops_ne s _ hℓ] at hf
      exact Or.inl hf
  | dtor hlife => exact Or.inl hf
  | destroyConn name us c sc hlife hlookup hconn => exact Or.inl (bare_destroyConnection hconn hf)
  | dtorEnd hlife hempty => exact Or.inl hf
  | hold tid c hheld => exact Or.inl hf
  | drop tid c hidle => exact Or.inl hf
  | send tid c buf hidle huser hstate => exact Or.inl hf
  | sendQueue tid c buf hcall =>
    rcases bare_queueForConn hf with hf | rfl
    · exact Or.inl hf
    · have hheld := hcaller tid (by simp [hcall])
      rw [hcall] at hheld
      have hout := hstep.outcome hs.ids (by simp)
      exact Or.inr ((hout.alive _).mpr ((outlives_iff_held rfl).mpr hheld))
  | shutdown tid c hidle huser hstate => exact Or.inl hf
  | shutdownStore tid c hcall =>
    refine Or.inl ?_
    rw [← bare_storeDisconnecting s c ℓ]
    exact hf
  | shutdownQueue tid c hcall =>
    rcases bare_queueForConn hf with hf | rfl
    · exact Or.inl hf
    · have hheld := hcaller tid (by simp [hcall])
      rw [hcall] at hheld
      have hout := hstep.outcome hs.ids (by simp)
      exact Or.inr ((hout.alive _).mpr ((outlives_iff_held rfl).mpr hheld))

/-- Where a step takes owners away, the functors stay where they are. -/
theorem Step.bare_kept {s s' : Server k} {e : Label k} (h : Step s e s') {c : ConnId}
    (hgiven : s.givenUp c e ≠ []) {ℓ : Fin (k + 1)} (hrun : (s.loops ℓ).phase ≠ .exited)
    {f : BoundFunctor} (hf : f ∈ (s.loops ℓ).bare) :
    (s'.loops ℓ).phase ≠ .exited ∧ f ∈ (s'.loops ℓ).bare := by
  have hset : ∀ ℓ' p, p ≠ .exited → (s.loops ℓ').phase.rest = p.rest →
      ((s.setPhase ℓ' p).loops ℓ).phase ≠ .exited ∧ f ∈ ((s.setPhase ℓ' p).loops ℓ).bare := by
    intro ℓ' p hp hrest
    by_cases hℓ : ℓ = ℓ'
    · subst hℓ
      rw [setPhase, setLoop_loops_self]
      refine ⟨hp, mem_bare.mpr ?_⟩
      rw [← hrest]
      exact mem_bare.mp hf
    · rw [setPhase, setLoop_loops_ne s _ hℓ]
      exact ⟨hrun, hf⟩
  cases h with
  | loop ℓ' e hfree hstep =>
    cases hstep with
    | handled c' active hphase => exact hset ℓ' _ (by simp) (by rw [hphase]; rfl)
    | endFunctors done hphase => exact hset ℓ' _ (by simp) (by rw [hphase]; rfl)
    | _ => exact absurd rfl hgiven
  | destroyLoop ℓ' hphase =>
    have hℓ : ℓ ≠ ℓ' := by
      rintro rfl
      exact hrun hphase
    rw [setLoop_loops_ne s _ hℓ]
    exact ⟨hrun, hf⟩
  | destroyConn name us c' sc hlife hlookup hconn =>
    rw [destroyConnection_phase]
    refine ⟨hrun, ?_⟩
    have hbase : sc.loop = 0 := by
      by_contra hbase
      refine hgiven ?_
      simp only [givenUp, ite_eq_right_iff]
      rintro ⟨_, hlookup', sc', hsc', hzero⟩
      rw [hlookup] at hlookup'
      obtain rfl := Option.some.inj hlookup'
      rw [hconn] at hsc'
      obtain rfl := Option.some.inj hsc'
      exact absurd hzero hbase
    rw [destroyConnection, if_pos hbase,
      onConn_connectDestroyed (s := s.eraseConnection name) hconn us, mem_bare, store_phase,
      store_pending]
    exact mem_bare.mp hf
  | drop tid c' hidle => exact ⟨hrun, hf⟩
  | _ => exact absurd rfl hgiven

/-! ## Steps -/

/-- Of two moments at which the connection exists, the step between them leaves it an
owner. -/
theorem outlives_of_held {s : Server k} (hs : s.CallInv) {e : Label k} {c : ConnId}
    (hheld : s.Held c) (hnext : (s.step e).Held c) : s.Outlives c e := by
  by_cases hgiven : s.givenUp c e = []
  · exact (outlives_iff_held hgiven).mpr hheld
  · have hstep := step_of_givenUp hgiven
    have hout := hstep.outcome hs.ids (by rintro fd ioLoop wc hw mark us rfl; exact hgiven rfl)
    exact (hout.alive _).mp hnext

theorem held_of_outlives {s : Server k} (hs : s.CallInv) {e : Label k} {c : ConnId}
    (h : s.Outlives c e) : (s.step e).Held c := by
  rcases step_cases s e with hstutter | hstep
  · rw [hstutter]
    obtain ⟨o, ho, _⟩ := h
    exact ⟨o, ho⟩
  · exact hstep.held_of_outlives hs.ids h

/-- From a state where all of them are bound to connections that exist, a step
leads to such a state exactly when it takes no last owner. -/
theorem bareOwned_step {s : Server k} (hs : s.CallInv) (h : s.BareOwned) (e : Label k) :
    (s.step e).BareOwned ↔ s.LeavesOwner e := by
  constructor
  · intro hnext ℓ hrun f hf hheld
    by_cases hgiven : s.givenUp f.conn e = []
    · exact (outlives_iff_held hgiven).mpr hheld
    · obtain ⟨hrun', hf'⟩ := (step_of_givenUp hgiven).bare_kept hgiven hrun hf
      exact outlives_of_held hs hheld (hnext ℓ hrun' f hf')
  · intro hleaves
    rcases step_cases s e with hstutter | hstep
    · rw [hstutter]
      exact h
    · generalize s.step e = s' at hstep
      intro ℓ hrun f hf
      rcases hstep.bare hs hf with hold | hheld
      · have hrun' : (s.loops ℓ).phase ≠ .exited := fun hexited => hrun (hstep.exited hexited)
        have houtlives := hleaves ℓ hrun' f hold (h ℓ hrun' f hold)
        exact hstep.held_of_outlives hs.ids houtlives
      · exact hheld

theorem init_bareOwned (k : Nat) (name : List Char) (listenAddr : InetAddress) :
    (init k name listenAddr).BareOwned := by
  intro ℓ _ f hf
  simp [init, mem_bare, Phase.rest] at hf

end Server

end EchoServer
