import EchoServer.ConnRefinement

/-!
# What a loop owns, its thread alone touches

Nothing in the code checks in which thread a function is called. In every run all the
same, the poller and the active channels of a loop, and the connections that live in
it, are touched by the thread of the loop only, but for the `setState` in `shutdown`.

* `Within`: what changes is of one loop, or in the queues; one lemma for each function;
* `Confined`, `Step.confined`: so it is in each step;
* `connections_confined`: and in every run.
-/

namespace EchoServer

open Runs Trace

namespace Server

variable {k : Nat}

/-- The step is taken by the thread of loop `ℓ`. The functions of `TcpServer` are
called in that of the base loop. -/
def InLoop (ℓ : Fin (k + 1)) : Label k → Prop
  | .loop ℓ' _ => ℓ' = ℓ
  | .accept _ _ _ _ _ _ => ℓ = baseLoop
  | .destroyConn _ _ => ℓ = baseLoop
  | _ => False

/-- A thread that has called `shutdown` on `c` stores the state. -/
def StoresState (s : Server k) (c : ConnId) : Label k → Prop
  | .shutdownStore tid => s.calls tid = ⟨c, .shutdownChecked⟩
  | _ => False

/-- What the thread of a loop leaves alone: of other loops all but their queues, and
their connections. -/
structure Within (ℓ : Fin (k + 1)) (s s' : Server k) : Prop where
  poller : ∀ ℓ', ℓ' ≠ ℓ → (s'.loops ℓ').poller = (s.loops ℓ').poller
  phase : ∀ ℓ', ℓ' ≠ ℓ → (s'.loops ℓ').phase = (s.loops ℓ').phase
  conn : ∀ c sc, s.conns c = some sc → sc.loop ≠ ℓ → s'.conns c = some sc

section Frames

variable {s s' s'' : Server k} {ℓ : Fin (k + 1)}

theorem Within.refl (ℓ : Fin (k + 1)) (s : Server k) : Within ℓ s s :=
  ⟨fun _ _ => rfl, fun _ _ => rfl, fun _ _ hconn _ => hconn⟩

theorem Within.trans (h : Within ℓ s s') (h' : Within ℓ s' s'') : Within ℓ s s'' where
  poller ℓ' hℓ := (h'.poller ℓ' hℓ).trans (h.poller ℓ' hℓ)
  phase ℓ' hℓ := (h'.phase ℓ' hℓ).trans (h.phase ℓ' hℓ)
  conn c sc hconn hloop := h'.conn c sc (h.conn c sc hconn hloop) hloop

theorem setLoop_within (s : Server k) (ℓ : Fin (k + 1)) (l : ServerLoop) :
    Within ℓ s (s.setLoop ℓ l) where
  poller ℓ' hℓ := by rw [setLoop_loops_ne s l hℓ]
  phase ℓ' hℓ := by rw [setLoop_loops_ne s l hℓ]
  conn _ _ hconn _ := hconn

theorem setPending_poller (s : Server k) (ℓ ℓ' : Fin (k + 1)) (fs : List BoundFunctor) :
    ((s.setLoop ℓ { s.loops ℓ with pending := fs }).loops ℓ').poller = (s.loops ℓ').poller := by
  by_cases hℓ : ℓ' = ℓ
  · rw [hℓ, setLoop_loops_self]
  · rw [setLoop_loops_ne s _ hℓ]

theorem setPending_phase (s : Server k) (ℓ ℓ' : Fin (k + 1)) (fs : List BoundFunctor) :
    ((s.setLoop ℓ { s.loops ℓ with pending := fs }).loops ℓ').phase = (s.loops ℓ').phase := by
  by_cases hℓ : ℓ' = ℓ
  · rw [hℓ, setLoop_loops_self]
  · rw [setLoop_loops_ne s _ hℓ]

theorem queueForConn_poller (s : Server k) (f : BoundFunctor) (ℓ : Fin (k + 1)) :
    ((s.queueForConn f).loops ℓ).poller = (s.loops ℓ).poller := by
  unfold queueForConn
  split
  · exact setPending_poller s _ ℓ _
  · rfl

/-- Any thread may queue a functor, in any loop. -/
theorem queueInLoop_within (s : Server k) (ℓ ℓ' : Fin (k + 1)) (f : BoundFunctor) :
    Within ℓ s (s.queueInLoop ℓ' f) where
  poller ℓ'' _ := setPending_poller s ℓ' ℓ'' _
  phase ℓ'' _ := setPending_phase s ℓ' ℓ'' _
  conn _ _ hconn _ := hconn

theorem eraseConnection_within (s : Server k) (ℓ : Fin (k + 1)) (name : List Char) :
    Within ℓ s (s.eraseConnection name) :=
  ⟨fun _ _ => rfl, fun _ _ => rfl, fun _ _ hconn _ => hconn⟩

theorem removeConnectionInLoop_within (s : Server k) (ℓ : Fin (k + 1)) (c : ConnId) :
    Within ℓ s (s.removeConnectionInLoop c) := by
  unfold removeConnectionInLoop
  split
  · rename_i sc _
    exact (eraseConnection_within s ℓ sc.name).trans (queueInLoop_within _ ℓ sc.loop _)
  · exact Within.refl ℓ s

/-- An operation of a connection of the loop. -/
theorem onConn_within {c : ConnId} (hhome : s.HasHome ℓ c) (op : Conn → Conn) :
    Within ℓ s (s.onConn c op) := by
  obtain ⟨sc, hconn, rfl⟩ := hhome
  have hreplay := onConn_cases hconn op
  constructor
  · intro ℓ' hℓ
    rw [hreplay.poller, store_poller_ne s c _ hℓ]
  · intro ℓ' _
    exact onConn_phase s c op ℓ'
  · intro d sd hsd hloop
    have hd : d ≠ c := by
      rintro rfl
      rw [hconn] at hsd
      obtain rfl := Option.some.inj hsd
      exact hloop rfl
    rw [onConn_conns_ne hconn op hd, hsd]

theorem execute_within {f : BoundFunctor} (hf : s.HomeFunctor ℓ f) (mem : Nat → Byte)
    (a : Conn.Answers) : Within ℓ s (s.execute f mem a) := by
  unfold execute
  split
  · rcases hf with hremove | hhome
    · have heq : s.call f mem a = s.removeConnectionInLoop f.conn := by
        rw [call, hremove]
      rw [heq]
      exact removeConnectionInLoop_within s ℓ f.conn
    · rcases s.call_cases f mem a with ⟨op, _, heq⟩ | heq | heq
      · rw [heq]
        exact onConn_within hhome op
      · rw [heq]
        exact removeConnectionInLoop_within s ℓ f.conn
      · rw [heq]
        exact Within.refl ℓ s
  · exact Within.refl ℓ s

theorem LoopStep.within (hs : s.Homed) {e : LoopLabel} (h : LoopStep s ℓ e s') :
    Within ℓ s s' := by
  cases h with
  | part c p rest active a hphase =>
    have hhome : s.HasHome ℓ c := by
      apply hs.active
      rw [hphase]
      exact List.mem_cons_self
    have hset := setLoop_within s ℓ { s.loops ℓ with phase := .handling c rest active }
    exact hset.trans (onConn_within (s := s.setPhase ℓ _) hhome _)
  | functor done rest f mem a hphase =>
    have hf : s.HomeFunctor ℓ f := by
      apply hs.queued
      rw [ServerLoop.queue, hphase]
      exact List.mem_cons_self
    have hset := setLoop_within s ℓ { s.loops ℓ with phase := .functors (done ++ [f]) rest }
    exact hset.trans (execute_within (s := s.setPhase ℓ _) hf mem a)
  | userCall c u hpolling hexited hlives => exact onConn_within hlives.2 _
  | poll | handle | handleDead | handled | startFunctors | endFunctors | exit =>
    exact setLoop_within s ℓ _

/-- `newConnection` runs in the base loop. -/
theorem newConnection_within (hs : s.Homed) (fd : Nat) (ioLoop : Fin (k + 1)) (wc hw : Bool)
    (mark : Nat) (us : List UserCall) :
    Within baseLoop s (s.newConnection fd ioLoop wc hw mark us) := by
  have hadd : Within baseLoop s (s.addConnection fd ioLoop wc hw mark) := by
    refine ⟨fun _ _ => rfl, fun _ _ => rfl, ?_⟩
    intro c sc hconn _
    rw [addConnection_conns_ne (hs.ids.ne_next hconn), hconn]
  unfold newConnection
  split
  · rename_i hbase
    refine hadd.trans (onConn_within ⟨_, addConnection_conns_self s fd ioLoop wc hw mark, ?_⟩ _)
    exact hbase
  · exact hadd.trans (queueInLoop_within _ baseLoop ioLoop _)

/-- So does `~TcpServer`. -/
theorem destroyConnection_within {c : ConnId} {sc : ServerConn k} (hconn : s.conns c = some sc)
    (name : List Char) (us : List UserCall) :
    Within baseLoop s (s.destroyConnection name c sc us) := by
  have herase := eraseConnection_within s baseLoop name
  unfold destroyConnection
  split
  · rename_i hbase
    have hhome : (s.eraseConnection name).HasHome baseLoop c := ⟨sc, hconn, hbase⟩
    exact herase.trans (onConn_within hhome _)
  · exact herase.trans (queueInLoop_within _ baseLoop sc.loop _)

end Frames

/-! ## What connections do -/

section Effects

variable {s : Server k} {c : ConnId} {sc : ServerConn k}

theorem home_of_loopEffects (hs : s.Homed) {ℓ : Fin (k + 1)} {e : LoopLabel}
    (h : s.loopEffects c ℓ e ≠ []) : s.HasHome ℓ c := by
  cases e with
  | part a =>
    simp only [loopEffects] at h
    split at h
    · rename_i guard p rest active hphase
      split at h
      · rename_i hguard
        apply hs.active
        rw [hphase, ← hguard]
        exact List.mem_cons_self
      · exact absurd rfl h
    · exact absurd rfl h
  | functor mem a =>
    simp only [loopEffects] at h
    split at h
    · rename_i done f rest hphase
      split at h
      · rename_i hf
        have hmem : f ∈ (s.loops ℓ).queue := by
          rw [ServerLoop.queue, hphase]
          exact List.mem_cons_self
        rcases hs.queued ℓ f hmem with hremove | hhome
        · -- `removeConnectionInLoop` is no operation of the connection
          rw [callTrace, hremove] at h
          exact absurd rfl h
        · rw [hf.1] at hhome
          exact hhome
      · exact absurd rfl h
    · exact absurd rfl h
  | userCall d u =>
    simp only [loopEffects] at h
    split at h
    · rename_i hcan
      exact hcan.2.2.2.2
    · exact absurd rfl h
  | _ => exact absurd rfl h

theorem inLoop_of_effects (hs : s.Homed) (hconn : s.conns c = some sc) {e : Label k}
    (h : effects c s e ≠ []) : InLoop sc.loop e ∨ s.StoresState c e := by
  cases e with
  | loop ℓ e =>
    rw [effects] at h
    split at h
    · exact Or.inl (hasHome_loop (home_of_loopEffects hs h) hconn).symm
    · exact absurd rfl h
  | accept fd ioLoop wc hw mark us =>
    have hne := hs.ids.ne_next hconn
    rw [effects, if_neg fun hnew => hne hnew.1] at h
    exact absurd rfl h
  | destroyConn name us =>
    simp only [effects, hconn] at h
    split at h
    · rename_i heq
      split at h
      · rename_i hd
        obtain rfl := Option.some.inj heq
        exact Or.inl hd.2
      · exact absurd rfl h
    · exact absurd rfl h
  | shutdownStore tid =>
    simp only [effects] at h
    split at h
    · rename_i hcall
      exact Or.inr hcall.1
    · exact absurd rfl h
  | _ => exact absurd rfl h

end Effects

/-! ## Steps and runs -/

/-- What a loop owns is touched in its thread only, but for its queue, and for the
state that a `shutdown` stores. -/
structure Confined (s : Server k) (e : Label k) (s' : Server k) : Prop where
  poller : ∀ ℓ, ¬ InLoop ℓ e → (s'.loops ℓ).poller = (s.loops ℓ).poller
  phase : ∀ ℓ, ¬ InLoop ℓ e → (s'.loops ℓ).phase = (s.loops ℓ).phase
  conn : ∀ c sc, s.conns c = some sc → ¬ InLoop sc.loop e → ¬ s.StoresState c e →
    s'.conns c = some sc
  effects : ∀ c sc, s.conns c = some sc → effects c s e ≠ [] →
    InLoop sc.loop e ∨ s.StoresState c e
  /-- The store touches the state alone. -/
  stored : ∀ c sc, s.conns c = some sc → s.StoresState c e →
    s'.conns c = some { sc with tcp := { sc.tcp with state := .kDisconnecting } }

section Steps

variable {s s' : Server k} {e : Label k}

/-- A step of the thread of one loop, which stores no state. -/
theorem Within.confined (hs : s.Homed) {ℓ : Fin (k + 1)} (h : Within ℓ s s')
    (hloop : ∀ ℓ', ¬ InLoop ℓ' e → ℓ' ≠ ℓ) (hstore : ∀ c, ¬ s.StoresState c e) :
    Confined s e s' where
  poller ℓ' hℓ := h.poller ℓ' (hloop ℓ' hℓ)
  phase ℓ' hℓ := h.phase ℓ' (hloop ℓ' hℓ)
  conn c sc hconn hℓ _ := h.conn c sc hconn (hloop sc.loop hℓ)
  effects _ _ hconn heffects := inLoop_of_effects hs hconn heffects
  stored c _ _ hstores := absurd hstores (hstore c)

/-- A step that leaves all but queues, calls and references as they are. -/
theorem confined_of_same (hs : s.Homed)
    (hpoller : ∀ ℓ, (s'.loops ℓ).poller = (s.loops ℓ).poller)
    (hphase : ∀ ℓ, (s'.loops ℓ).phase = (s.loops ℓ).phase) (hconns : s'.conns = s.conns)
    (hstore : ∀ c, ¬ s.StoresState c e) : Confined s e s' where
  poller ℓ _ := hpoller ℓ
  phase ℓ _ := hphase ℓ
  conn c _ hconn _ _ := by rw [hconns, hconn]
  effects _ _ hconn heffects := inLoop_of_effects hs hconn heffects
  stored c _ _ hstores := absurd hstores (hstore c)

/-- `setState(KDisconnecting)` in a thread that has called `shutdown`. -/
theorem storeDisconnecting_confined (hs : s.Homed) {tid : Nat} {d : ConnId}
    (hcall : s.calls tid = ⟨d, .shutdownChecked⟩) :
    Confined s (.shutdownStore tid)
      ((s.storeDisconnecting d).setCall tid ⟨d, .shutdownStored⟩) where
  poller ℓ _ := by
    unfold storeDisconnecting
    split
    · rfl
    · rfl
  phase ℓ _ := storeDisconnecting_phase s d ℓ
  conn c sc hconn _ hother := by
    have hne : c ≠ d := by
      rintro rfl
      exact hother hcall
    exact (storeDisconnecting_conns_ne s hne).trans hconn
  effects _ _ hconn heffects := inLoop_of_effects hs hconn heffects
  stored c sc hconn hstores := by
    have hstores' : s.calls tid = ⟨c, .shutdownChecked⟩ := hstores
    rw [hcall] at hstores'
    obtain rfl : d = c := congrArg Call.conn hstores'
    exact storeDisconnecting_conns_self hconn

theorem Step.confined (hs : s.Homed) (h : Step s e s') : Confined s e s' := by
  cases h with
  | loop ℓ e hfree hstep =>
    exact (hstep.within hs).confined hs (fun ℓ' hne heq => hne heq.symm) fun _ => id
  | accept fd ioLoop wc hw mark us hcan =>
    exact (newConnection_within hs fd ioLoop wc hw mark us).confined hs (fun _ => id) fun _ => id
  | destroyConn name us c sc hlife hlookup hconn =>
    exact (destroyConnection_within hconn name us).confined hs (fun _ => id) fun _ => id
  | destroyLoop ℓ hphase =>
    exact confined_of_same hs (fun ℓ' => setPending_poller s ℓ ℓ' [])
      (fun ℓ' => setPending_phase s ℓ ℓ' []) rfl fun _ => id
  | sendQueue tid c buf hcall =>
    exact confined_of_same hs (queueForConn_poller s _) (queueForConn_phase s _)
      (queueForConn_conns s _) fun _ => id
  | shutdownStore tid c hcall => exact storeDisconnecting_confined hs hcall
  | shutdownQueue tid c hcall =>
    exact confined_of_same hs (queueForConn_poller s _) (queueForConn_phase s _)
      (queueForConn_conns s _) fun _ => id
  | dtor | dtorEnd | hold | drop | send | shutdown =>
    exact confined_of_same hs (fun _ => rfl) (fun _ => rfl) rfl fun _ => id

theorem Homed.confined (hs : s.Homed) (e : Label k) : Confined s e (s.step e) := by
  rcases step_cases s e with hstutter | hstep
  · rw [hstutter]
    refine ⟨fun _ _ => rfl, fun _ _ => rfl, fun _ _ hconn _ _ => hconn,
      fun _ _ hconn heffects => inLoop_of_effects hs hconn heffects, ?_⟩
    -- a store is not a stutter
    intro c sc hconn hstores
    cases e with
    | shutdownStore tid =>
      have hcall : s.calls tid = ⟨c, .shutdownChecked⟩ := hstores
      have hstored := (storeDisconnecting_confined hs hcall).stored c sc hconn hcall
      have hstep : s.step (.shutdownStore tid) =
          (s.storeDisconnecting c).setCall tid ⟨c, .shutdownStored⟩ := by
        simp only [Server.step, hcall]
      rw [← hstep, hstutter] at hstored
      exact hstored
    | _ => exact hstores.elim
  · exact hstep.confined hs

end Steps

/-- In every run the poller and the phase of each loop, and the connections that live
in it, are touched by its own thread only; another thread stores the state of a
connection in `shutdown`, and nothing else. -/
theorem connections_confined (name : List Char) (listenAddr : InetAddress)
    {ls : List (Label k)} (hregular : EachStep step (init k name listenAddr) Regular ls) :
    EachStep step (init k name listenAddr) (fun s e => Confined s e (s.step e)) ls := by
  have hhomed : Always step (init k name listenAddr) Homed ls :=
    always_of_eachStep (init_homed k name listenAddr) (fun s e hs he => hs.step e he) hregular
  exact hhomed.eachStep fun s e hs => hs.confined e

/-- Another thread shuts the greeted connection down. -/
theorem connections_confined_shutdown :
    EachStep step (init 1 ['e'] ⟨fun _ => 0#8, 80#16⟩) (fun s e => Confined s e (s.step e))
      (greetingSteps ++ [.hold 5 1, .shutdown 5 1, .shutdownStore 5, .shutdownQueue 5]) :=
  connections_confined ['e'] ⟨fun _ => 0#8, 80#16⟩ (by decide)

end Server

end EchoServer
