import EchoServer.Ownership

/-!
# Which connections outlive a step

* `givenUp`: the owners that a step takes away: the guard of a handler that
  returns, the functors of a finished batch, the queue of a destroyed loop, the
  pointer a user drops, and the table's entry where `~TcpServer` runs
  `connectDestroyed` itself;
* `Step.outcome`: a step keeps all connections, and those live on that have an
  owner it does not take away; `Ids.step`: numbers and names stay in order.
-/

namespace EchoServer

open Runs

namespace Phase

/-- All callbacks of the handler have run. -/
def handlerDone : Phase → Bool
  | .handling _ [] _ => true
  | _ => false

/-- All functors of the batch have been executed. -/
def batchDone : Phase → Bool
  | .functors _ [] => true
  | _ => false

theorem handling_of_handlerDone {p : Phase} (h : p.handlerDone = true) :
    ∃ c active, p = .handling c [] active := by
  unfold handlerDone at h
  split at h
  · exact ⟨_, _, rfl⟩
  · cases h

theorem functors_of_batchDone {p : Phase} (h : p.batchDone = true) :
    ∃ done, p = .functors done [] := by
  unfold batchDone at h
  split at h
  · exact ⟨_, rfl⟩
  · cases h

end Phase

namespace Server

variable {k : Nat}

/-! ## The owners a step takes away -/

/-- The owners of connection `c` that give it up in the step. -/
def givenUp (s : Server k) (c : ConnId) : Label k → List (Owner k)
  | .loop ℓ .handled =>
    if s.LoopFree ℓ ∧ (s.loops ℓ).phase.handlerDone = true then [.guard ℓ] else []
  | .loop ℓ .endFunctors =>
    if s.LoopFree ℓ ∧ (s.loops ℓ).phase.batchDone = true then [.batch ℓ] else []
  | .destroyLoop ℓ => if (s.loops ℓ).phase = .exited then [.pending ℓ] else []
  | .destroyConn name _ =>
    if s.lifetime = .destroying ∧ s.connections.lookup name = some c ∧
        ∃ sc ∈ s.conns c, sc.loop = baseLoop then [.map] else []
  | .drop tid c' => if c' = c ∧ (s.calls tid).pc = .idle then [.user tid] else []
  | _ => []

/-- The connection keeps an owner in the step. -/
def Outlives (s : Server k) (c : ConnId) (e : Label k) : Prop :=
  ∃ o, s.Owns c o ∧ o ∉ s.givenUp c e

instance (s : Server k) (c : ConnId) (e : Label k) : Decidable (s.Outlives c e) :=
  decidable_of_iff (∃ o ∈ s.owners, s.Owns c o ∧ o ∉ s.givenUp c e)
    ⟨fun ⟨o, _, h⟩ => ⟨o, h⟩, fun ⟨o, h⟩ => ⟨o, mem_owners h.1, h⟩⟩

theorem outlives_iff_held {s : Server k} {c : ConnId} {e : Label k} (h : s.givenUp c e = []) :
    s.Outlives c e ↔ s.Held c := by
  simp [Outlives, Held, h]

/-- What a step other than an `accept` does to the connections. -/
structure Outcome (s : Server k) (e : Label k) (s' : Server k) : Prop extends Keeps s s' where
  alive : ∀ c, s'.Held c ↔ s.Outlives c e

theorem Passes.outcome {s s' : Server k} {e : Label k} (h : Passes s s')
    (hnone : ∀ c, s.givenUp c e = []) : Outcome s e s' where
  toKeeps := h.toKeeps
  alive c := by
    rw [outlives_iff_held (hnone c)]
    exact ⟨h.held c, h.kept c⟩

/-- Nothing but owners is lost. -/
theorem outcome_of_owns {s s' : Server k} {e : Label k} (hconns : s'.conns = s.conns)
    (hnames : s'.connName = s.connName) (hcounter : s'.nextConnId = s.nextConnId)
    (htable : ∀ p ∈ s'.connections, p ∈ s.connections)
    (howns : ∀ c o, s'.Owns c o ↔ s.Owns c o ∧ o ∉ s.givenUp c e) : Outcome s e s' where
  names := hnames
  counter := hcounter
  conn c sc' hc := ⟨sc', by rw [← hconns, hc], SameConn.refl sc'⟩
  created c sc hc := ⟨sc, by rw [hconns, hc]⟩
  table := htable
  held c := by
    rintro ⟨o, ho⟩
    exact ⟨o, ((howns c o).mp ho).1⟩
  alive c := exists_congr (howns c)

/-! ## Steps -/

theorem call_passes {s : Server k} (hs : s.Ids) {f : BoundFunctor} (hheld : s.Held f.conn)
    (mem : Nat → Byte) (a : Conn.Answers) : Passes s (s.call f mem a) := by
  unfold call
  split
  · exact onConn_passes hs hheld fun d => (Conn.sendInLoop_moves d _ _).localized
  · exact onConn_passes hs hheld fun d => (Conn.shutdownInLoop_moves d).localized
  · exact onConn_passes hs hheld fun d => Conn.connectEstablished_localized d _
  · exact onConn_passes hs hheld fun d => Conn.connectDestroyed_localized d _
  · exact removeConnectionInLoop_passes hs hheld
  · exact Passes.refl s
  · exact Passes.refl s
  · exact Passes.refl s

theorem execute_passes {s : Server k} (hs : s.Ids) (f : BoundFunctor) (mem : Nat → Byte)
    (a : Conn.Answers) : Passes s (s.execute f mem a) := by
  unfold execute
  split
  · rename_i hheld
    exact call_passes hs hheld mem a
  · exact Passes.refl s

theorem setPhase_passes {s : Server k} {ℓ : Fin (k + 1)} {p : Phase}
    (hbatch : p.batch = (s.loops ℓ).phase.batch)
    (hguarded : p.guarded = (s.loops ℓ).phase.guarded) : Passes s (s.setPhase ℓ p) := by
  have howns : ∀ c, ({ s.loops ℓ with phase := p } : ServerLoop).Owns c ↔ (s.loops ℓ).Owns c := by
    intro c
    simp only [ServerLoop.Owns, hbatch, hguarded]
  exact setLoop_passes (fun c hc => held_of_loop ((howns c).mp hc)) fun c => (howns c).mpr

/-- The guard joins the owners of the connection. -/
theorem handle_passes {s : Server k} {ℓ : Fin (k + 1)} {c : ConnId} {revents : EventMask}
    {active : List (ConnId × EventMask)}
    (hphase : (s.loops ℓ).phase = .handlers ((c, revents) :: active)) (hheld : s.Held c) :
    Passes s (s.setPhase ℓ (.handling c (Conn.dispatch revents) active)) := by
  refine setLoop_passes ?_ ?_
  · rintro c' (hpending | ⟨f, hf, _⟩ | hguard)
    · exact ⟨.pending ℓ, hpending⟩
    · simp [Phase.batch] at hf
    · obtain rfl : c = c' := by simpa [Phase.guarded] using hguard
      exact hheld
  · rintro c' (hpending | ⟨f, hf, _⟩ | hguard)
    · exact Or.inl hpending
    · simp [hphase, Phase.batch] at hf
    · simp [hphase, Phase.guarded] at hguard

/-- The queue becomes the batch. -/
theorem startFunctors_passes {s : Server k} {ℓ : Fin (k + 1)}
    (hphase : (s.loops ℓ).phase = .handlers []) :
    Passes s (s.setLoop ℓ
      { s.loops ℓ with pending := [], phase := .functors [] (s.loops ℓ).pending }) := by
  refine setLoop_passes ?_ ?_
  · rintro c (⟨f, hf, _⟩ | ⟨f, hf, howns⟩ | hguard)
    · simp at hf
    · exact ⟨.pending ℓ, f, by simpa [Phase.batch] using hf, howns⟩
    · simp [Phase.guarded] at hguard
  · rintro c (⟨f, hf, howns⟩ | ⟨f, hf, _⟩ | hguard)
    · exact Or.inr (Or.inl ⟨f, by simpa [Phase.batch] using hf, howns⟩)
    · simp [hphase, Phase.batch] at hf
    · simp [hphase, Phase.guarded] at hguard

theorem LoopStep.outcome {s s' : Server k} (hs : s.Ids) {ℓ : Fin (k + 1)} {e : LoopLabel}
    (hfree : s.LoopFree ℓ) (h : LoopStep s ℓ e s') : Outcome s (.loop ℓ e) s' := by
  cases h with
  | poll ready hphase =>
    exact (setPhase_passes (by rw [hphase]; rfl) (by rw [hphase]; rfl)).outcome fun _ => rfl
  | handle c revents active hphase hheld => exact (handle_passes hphase hheld).outcome fun _ => rfl
  | handleDead c revents active hphase hdead =>
    exact (setPhase_passes (by rw [hphase]; rfl) (by rw [hphase]; rfl)).outcome fun _ => rfl
  | part c p rest active a hphase =>
    have hset : Passes s (s.setPhase ℓ (.handling c rest active)) :=
      setPhase_passes (by rw [hphase]; rfl) (by rw [hphase]; rfl)
    have hheld : s.Held c := ⟨.guard ℓ, by simp [Owns, hphase, Phase.guarded]⟩
    have hop := onConn_passes (hset.ids hs) (hset.kept c hheld)
      fun d => (Conn.runPart_moves d p a).localized
    exact (hset.trans hop).outcome fun _ => rfl
  | handled c active hphase =>
    have hdone : (s.loops ℓ).phase.handlerDone = true := by rw [hphase]; rfl
    refine outcome_of_owns rfl rfl rfl (fun p hp => hp) fun c' o => ?_
    refine owns_setLoop_iff ?_ ?_ ?_ ?_ o
    · simp [givenUp, hfree, hdone]
    · simp [givenUp, hfree, hdone, Owns]
    · simp [givenUp, hfree, Owns, hphase, Phase.batch]
    · simp [givenUp, hfree, hdone, Phase.guarded]
  | startFunctors hphase => exact (startFunctors_passes hphase).outcome fun _ => rfl
  | functor done rest f mem a hphase =>
    have hset : Passes s (s.setPhase ℓ (.functors (done ++ [f]) rest)) :=
      setPhase_passes (by rw [hphase]; simp [Phase.batch]) (by rw [hphase]; rfl)
    exact (hset.trans (execute_passes (hset.ids hs) f mem a)).outcome fun _ => rfl
  | endFunctors done hphase =>
    have hdone : (s.loops ℓ).phase.batchDone = true := by rw [hphase]; rfl
    refine outcome_of_owns rfl rfl rfl (fun p hp => hp) fun c' o => ?_
    refine owns_setLoop_iff ?_ ?_ ?_ ?_ o
    · simp [givenUp, hfree, hdone]
    · simp [givenUp, hfree, hdone, Owns]
    · simp [givenUp, hfree, hdone, Phase.batch]
    · simp [givenUp, hfree, Owns, hphase, Phase.guarded]
  | userCall c u hpolling hexited hlives =>
    have hop := onConn_passes hs hlives.1 fun d => (Conn.userCall_moves d u).localized
    exact hop.outcome fun _ => rfl
  | exit hphase =>
    exact (setPhase_passes (by rw [hphase]; rfl) (by rw [hphase]; rfl)).outcome fun _ => rfl

theorem mem_of_lookup {s : Server k} {name : List Char} {c : ConnId}
    (h : s.connections.lookup name = some c) : (name, c) ∈ s.connections := by
  obtain ⟨l₁, l₂, heq, _⟩ := List.lookup_eq_some_iff.mp h
  simp [heq]

/-- `~TcpServer` finds a connection under its own name. -/
theorem Ids.name_of_lookup {s : Server k} (hs : s.Ids) {name : List Char} {c : ConnId}
    {sc : ServerConn k} (hconn : s.conns c = some sc)
    (hlookup : s.connections.lookup name = some c) : name = sc.name := by
  rw [(hs.conn c sc hconn).2.1]
  exact hs.table _ (mem_of_lookup hlookup)

theorem Outcome.trans_passes {s s' s'' : Server k} {e : Label k} (h : Outcome s e s')
    (h' : Passes s' s'') : Outcome s e s'' where
  toKeeps := h.toKeeps.trans h'.toKeeps
  alive c := by
    rw [← h.alive c]
    exact ⟨h'.held c, h'.kept c⟩

/-- A connection of the base loop loses its place in the table to nobody. -/
theorem eraseConnection_outcome {s : Server k} (hs : s.Ids) {name : List Char} {c : ConnId}
    {sc : ServerConn k} (hlife : s.lifetime = .destroying)
    (hlookup : s.connections.lookup name = some c) (hconn : s.conns c = some sc)
    (hbase : sc.loop = 0) (us : List UserCall) :
    Outcome s (.destroyConn name us) (s.eraseConnection name) := by
  have hname := hs.name_of_lookup hconn hlookup
  have hgiven : ∀ c', s.givenUp c' (.destroyConn name us) = if c' = c then [.map] else [] := by
    intro c'
    by_cases hc : c' = c
    · subst hc
      simp [givenUp, hlife, hlookup, hconn, hbase]
    · have hne : ¬ c = c' := fun h => hc h.symm
      simp [givenUp, hlookup, hne, hc]
  refine outcome_of_owns rfl rfl rfl (fun p hp => List.mem_of_mem_filter hp) fun c' o => ?_
  rw [hgiven]
  cases o with
  | map =>
    have herase : (s.eraseConnection name).connections =
        s.connections.filter fun p => p.2 ≠ c := by
      rw [hname]
      exact hs.erase_name hconn
    by_cases hc : c' = c
    · subst hc
      simp [Owns, herase]
    · simp only [Owns, herase, if_neg hc, List.not_mem_nil, not_false_eq_true, and_true]
      constructor
      · rintro ⟨p, hp, hpc⟩
        exact ⟨p, List.mem_of_mem_filter hp, hpc⟩
      · rintro ⟨p, hp, rfl⟩
        exact ⟨p, List.mem_filter.mpr ⟨hp, by simpa using hc⟩, rfl⟩
  | user tid => by_cases hc : c' = c <;> simp [Owns, eraseConnection, hc]
  | pending ℓ => by_cases hc : c' = c <;> simp [Owns, eraseConnection, hc]
  | batch ℓ => by_cases hc : c' = c <;> simp [Owns, eraseConnection, hc]
  | guard ℓ => by_cases hc : c' = c <;> simp [Owns, eraseConnection, hc]

theorem destroyConnection_outcome {s : Server k} (hs : s.Ids) {name : List Char} {c : ConnId}
    {sc : ServerConn k} (hlife : s.lifetime = .destroying)
    (hlookup : s.connections.lookup name = some c) (hconn : s.conns c = some sc)
    (us : List UserCall) :
    Outcome s (.destroyConn name us) (s.destroyConnection name c sc us) := by
  unfold destroyConnection
  split
  · rename_i hbase
    have herase := eraseConnection_outcome hs hlife hlookup hconn hbase us
    have hid := Conn.connectDestroyed_localized ((s.eraseConnection name).assemble sc) us
    rw [onConn_connectDestroyed (s := s.eraseConnection name) hconn us]
    exact herase.trans_passes (store_passes hconn hid.fd hid.self)
  · rename_i hbase
    have hheld : s.Held c := ⟨.map, (name, c), mem_of_lookup hlookup, rfl⟩
    rw [hs.name_of_lookup hconn hlookup]
    refine (erase_queue_passes hs hconn hheld sc.loop).outcome fun c' => ?_
    simp only [givenUp, ite_eq_right_iff]
    rintro ⟨_, hlookup', sc', hsc', hzero⟩
    rw [← hs.name_of_lookup hconn hlookup, hlookup] at hlookup'
    obtain rfl := Option.some.inj hlookup'
    rw [hconn] at hsc'
    obtain rfl := Option.some.inj hsc'
    exact absurd hzero hbase

theorem queueForConn_passes {s : Server k} {f : BoundFunctor} (hbare : f.functor.owning = false) :
    Passes s (s.queueForConn f) := by
  unfold queueForConn
  split
  · refine queueInLoop_passes _ ?_
    rintro c ⟨_, howning⟩
    rw [hbare] at howning
    cases howning
  · exact Passes.refl s

theorem setCall_passes (s : Server k) (tid : Nat) (call : Call) : Passes s (s.setCall tid call) :=
  passes_of_owns rfl rfl rfl rfl fun _ => Iff.rfl

theorem storeDisconnecting_passes (s : Server k) (c : ConnId) :
    Passes s (s.storeDisconnecting c) := by
  unfold storeDisconnecting
  split
  · rename_i sc hconn
    exact setConn_passes hconn ⟨rfl, rfl, rfl, rfl⟩
  · exact Passes.refl s

/-- Every step but an `accept` keeps the connections; those live on that have
an owner the step does not take away. -/
theorem Step.outcome {s s' : Server k} (hs : s.Ids) {e : Label k} (h : Step s e s')
    (haccept : ∀ fd ioLoop wc hw mark us, e ≠ .accept fd ioLoop wc hw mark us) :
    Outcome s e s' := by
  cases h with
  | loop ℓ e hfree hstep => exact LoopStep.outcome hs hfree hstep
  | accept fd ioLoop wc hw mark us _ => exact absurd rfl (haccept fd ioLoop wc hw mark us)
  | destroyLoop ℓ hphase =>
    refine outcome_of_owns rfl rfl rfl (fun p hp => hp) fun c o => ?_
    refine owns_setLoop_iff ?_ ?_ ?_ ?_ o
    · simp [givenUp, hphase]
    · simp [givenUp, hphase]
    · simp [givenUp, hphase, Owns]
    · simp [givenUp, hphase, Owns]
  | dtor hlife =>
    exact Passes.outcome (passes_of_owns rfl rfl rfl rfl fun _ => Iff.rfl) fun _ => rfl
  | destroyConn name us c sc hlife hlookup hconn =>
    exact destroyConnection_outcome hs hlife hlookup hconn us
  | dtorEnd hlife hempty =>
    exact Passes.outcome (passes_of_owns rfl rfl rfl rfl fun _ => Iff.rfl) fun _ => rfl
  | hold tid c hheld =>
    refine Passes.outcome (passes_of_owns rfl rfl rfl rfl fun c' => ⟨?_, ?_⟩) fun _ => rfl
    · rintro ⟨o, ho⟩
      cases o with
      | user tid' =>
        rcases List.mem_cons.mp ho with heq | ho
        · obtain ⟨rfl, rfl⟩ := Prod.mk.inj heq
          exact hheld
        · exact ⟨.user tid', ho⟩
      | map => exact ⟨.map, ho⟩
      | pending ℓ => exact ⟨.pending ℓ, ho⟩
      | batch ℓ => exact ⟨.batch ℓ, ho⟩
      | guard ℓ => exact ⟨.guard ℓ, ho⟩
    · rintro ⟨o, ho⟩
      cases o with
      | user tid' => exact ⟨.user tid', List.mem_cons_of_mem _ ho⟩
      | map => exact ⟨.map, ho⟩
      | pending ℓ => exact ⟨.pending ℓ, ho⟩
      | batch ℓ => exact ⟨.batch ℓ, ho⟩
      | guard ℓ => exact ⟨.guard ℓ, ho⟩
  | drop tid c hidle =>
    refine outcome_of_owns rfl rfl rfl (fun p hp => hp) fun c' o => ?_
    by_cases hc : c = c'
    · subst hc
      cases o <;> simp [givenUp, hidle, Owns]
    · cases o <;> simp [givenUp, hc, Owns, Ne.symm hc]
  | send tid c buf hidle huser hstate => exact (setCall_passes s _ _).outcome fun _ => rfl
  | sendQueue tid c buf hcall =>
    have hqueue : Passes s (s.queueForConn ⟨c, .sendInLoop buf⟩) := queueForConn_passes rfl
    exact (hqueue.trans (setCall_passes _ _ _)).outcome fun _ => rfl
  | shutdown tid c hidle huser hstate => exact (setCall_passes s _ _).outcome fun _ => rfl
  | shutdownStore tid c hcall =>
    exact ((storeDisconnecting_passes s c).trans (setCall_passes _ _ _)).outcome fun _ => rfl
  | shutdownQueue tid c hcall =>
    have hqueue : Passes s (s.queueForConn ⟨c, .shutdownInLoop⟩) := queueForConn_passes rfl
    exact (hqueue.trans (setCall_passes _ _ _)).outcome fun _ => rfl

theorem Step.held_of_outlives {s s' : Server k} (hs : s.Ids) {e : Label k} (h : Step s e s')
    {c : ConnId} (houtlives : s.Outlives c e) : s'.Held c := by
  by_cases haccept : ∀ fd ioLoop wc hw mark us, e ≠ .accept fd ioLoop wc hw mark us
  · exact ((h.outcome hs haccept).alive c).mpr houtlives
  · push Not at haccept
    obtain ⟨fd, ioLoop, wc, hw, mark, us, rfl⟩ := haccept
    cases h with
    | accept fd ioLoop wc hw mark us hcan =>
      have hheld := (outlives_iff_held rfl).mp houtlives
      exact (newConnection_held hs hcan.2.2.2.1 fd ioLoop wc hw mark us c).mpr (Or.inl hheld)

/-- A label that is not enabled takes no owner away. -/
theorem step_of_givenUp {s : Server k} {c : ConnId} {e : Label k} (h : s.givenUp c e ≠ []) :
    Step s e (s.step e) := by
  cases e with
  | loop ℓ e =>
    cases e with
    | handled =>
      simp only [givenUp, ne_eq, ite_eq_right_iff, reduceCtorEq, imp_false, not_not] at h
      obtain ⟨hfree, hdone⟩ := h
      obtain ⟨g, active, hphase⟩ := Phase.handling_of_handlerDone hdone
      simp only [step, if_pos hfree, loopStep, hphase]
      exact .loop ℓ _ hfree (.handled g active hphase)
    | endFunctors =>
      simp only [givenUp, ne_eq, ite_eq_right_iff, reduceCtorEq, imp_false, not_not] at h
      obtain ⟨hfree, hdone⟩ := h
      obtain ⟨done, hphase⟩ := Phase.functors_of_batchDone hdone
      simp only [step, if_pos hfree, loopStep, hphase]
      exact .loop ℓ _ hfree (.endFunctors done hphase)
    | _ => exact absurd rfl h
  | destroyLoop ℓ =>
    simp only [givenUp, ne_eq, ite_eq_right_iff, reduceCtorEq, imp_false, not_not] at h
    simp only [step, if_pos h]
    exact .destroyLoop ℓ h
  | destroyConn name us =>
    simp only [givenUp, ne_eq, ite_eq_right_iff, reduceCtorEq, imp_false, not_not] at h
    obtain ⟨hlife, hlookup, sc, hconn, _⟩ := h
    have hsc : s.conns c = some sc := hconn
    simp only [step, hlife, hlookup, hsc]
    exact .destroyConn name us c sc hlife hlookup hsc
  | drop tid c' =>
    simp only [givenUp, ne_eq, ite_eq_right_iff, reduceCtorEq, imp_false, not_not] at h
    simp only [step, if_pos h.2]
    exact .drop tid c' h.2
  | _ => exact absurd rfl h

theorem init_ids (k : Nat) (name : List Char) (listenAddr : InetAddress) :
    (init k name listenAddr).Ids where
  counter := by simp [init]
  conn c sc hc := by simp [init] at hc
  table p hp := by simp [init] at hp
  created c := by
    rintro ⟨o, ho⟩
    cases o <;> simp [Owns, init, Phase.batch, Phase.guarded] at ho

theorem Ids.step {s : Server k} (hs : s.Ids) (e : Label k) : (s.step e).Ids := by
  rcases step_cases s e with hstutter | hstep
  · rw [hstutter]
    exact hs
  · generalize s.step e = s' at hstep
    by_cases haccept : ∀ fd ioLoop wc hw mark us, e ≠ .accept fd ioLoop wc hw mark us
    · exact (hstep.outcome hs haccept).toKeeps.ids hs
    · push Not at haccept
      obtain ⟨fd, ioLoop, wc, hw, mark, us, rfl⟩ := haccept
      cases hstep with
      | accept fd ioLoop wc hw mark us hcan =>
        have hcounter := hcan.2.2.2.1
        exact (newConnection_passes hs hcounter fd ioLoop wc hw mark us).toKeeps.ids
          (addConnection_ids hs hcounter fd ioLoop wc hw mark)

end Server

end EchoServer
