import EchoServer.ServerFrames

/-!
# The table of connections is exact

`connections_` is keyed by the names that `newConnection` composes, and
`removeConnectionInLoop` erases by name. As names are never used twice, the
table is as good as one that is keyed by the connections themselves: `newConnection`
adds the entry of its connection and replaces none, `removeConnectionInLoop`
takes away the entry of its connection and no other (`step_connections`).

* `accepted`, `removed`: the connection that a step enters or takes out;
* `connection_table_exact`: the table has the connections accepted and not yet
  removed, each under its own name.
-/

namespace EchoServer

open Runs Trace

/-- `connectEstablished` notifies UP and runs user code. -/
theorem Conn.connectEstablished_extends (c : Conn) (us : List UserCall) :
    Extends (· ≠ .closeCallback) c.trace (c.connectEstablished us).trace := by
  have hstate : Extends (· ≠ .closeCallback) c.trace (c.trace ++ [.setState .kConnected]) := by
    apply Extends.one
    simp
  have hup : Extends (· ≠ .closeCallback) (c.trace ++ [.setState .kConnected])
      (c.trace ++ [.setState .kConnected] ++ [.connectionCallback true]) := by
    apply Extends.one
    simp
  have huser : Extends (· ≠ .closeCallback)
      (c.trace ++ [.setState .kConnected] ++ [.connectionCallback true])
      (c.connectEstablished us).trace := by
    refine (Conn.userCalls_extends _ us).mono ?_
    rintro e he rfl
    exact he
  exact (hstate.trans hup).trans huser

namespace Server

variable {k : Nat}

/-! ## What enters the table and what leaves it -/

/-- The number of the connection that the step accepts. -/
def accepted (s : Server k) : Label k → Option ConnId
  | .accept fd _ _ _ _ _ => if s.CanAccept fd then some s.nextConnId else none
  | _ => none

/-- The operation calls `closeCallback_` in the thread of the base loop, where
`runInLoop` does not wait. -/
def RemovesAtOnce (s : Server k) (c : ConnId) (op : Conn → Conn) : Prop :=
  ∃ sc ∈ s.conns c, sc.loop = baseLoop ∧ .closeCallback ∈ (op (s.assemble sc)).trace

instance (s : Server k) (c : ConnId) (op : Conn → Conn) : Decidable (s.RemovesAtOnce c op) := by
  unfold RemovesAtOnce
  infer_instance

/-- The connection that `removeConnectionInLoop`, or a turn of the loop in
`~TcpServer`, takes out of the table in this step. -/
def removed (s : Server k) : Label k → Option ConnId
  | .loop ℓ (.functor _ _) =>
    match (s.loops ℓ).phase with
    | .functors _ (⟨c, .removeConnectionInLoop⟩ :: _) => if s.LoopFree ℓ then some c else none
    | _ => none
  | .loop ℓ (.part a) =>
    match (s.loops ℓ).phase with
    | .handling c (p :: _) _ =>
      if s.LoopFree ℓ ∧ s.RemovesAtOnce c (·.runPart p a) then some c else none
    | _ => none
  | .destroyConn name _ => if s.lifetime = .destroying then s.connections.lookup name else none
  | _ => none

/-- A table that is keyed by the connections themselves. -/
def tableAfter (s : Server k) (e : Label k) : List (List Char × ConnId) :=
  match s.accepted e, s.removed e with
  | some c, _ => (s.connName c, c) :: s.connections
  | none, some c => s.connections.filter fun p => p.2 ≠ c
  | none, none => s.connections

/-! ## Replaying -/

theorem replay_conns (s : Server k) (c : ConnId) (ℓ : Fin (k + 1)) (e : Effect) :
    (replay c ℓ s e).conns = s.conns := by
  cases e with
  | closeCallback =>
    simp only [replay, removeConnection, removeConnectionInLoop]
    split
    · split <;> rfl
    · rfl
  | _ => rfl

theorem removeConnectionInLoop_connections {s : Server k} {c : ConnId} {sc : ServerConn k}
    (hconn : s.conns c = some sc) :
    (s.removeConnectionInLoop c).connections = s.connections.filter fun p => p.1 ≠ sc.name := by
  simp only [removeConnectionInLoop, hconn]
  rfl

theorem replay_connections {s : Server k} {c : ConnId} {sc : ServerConn k}
    (hconn : s.conns c = some sc) (e : Effect) :
    (replay c sc.loop s e).connections =
      if sc.loop = baseLoop ∧ e = .closeCallback then
        s.connections.filter fun p => p.1 ≠ sc.name
      else s.connections := by
  cases e with
  | closeCallback =>
    simp only [replay, removeConnection]
    by_cases hbase : sc.loop = baseLoop
    · rw [if_pos hbase, if_pos ⟨hbase, trivial⟩, removeConnectionInLoop_connections hconn]
    · rw [if_neg hbase, if_neg fun h => hbase h.1]
      rfl
  | _ => rw [if_neg (by simp)]; rfl

/-- However often `closeCallback_` is called, the entry is erased. -/
theorem replays_connections {c : ConnId} {sc : ServerConn k} (es : List Effect) {s : Server k}
    (hconn : s.conns c = some sc) :
    (es.foldl (replay c sc.loop) s).connections =
      if sc.loop = baseLoop ∧ .closeCallback ∈ es then
        s.connections.filter fun p => p.1 ≠ sc.name
      else s.connections := by
  induction es generalizing s with
  | nil => simp
  | cons e es ih =>
    have hconn' : (replay c sc.loop s e).conns c = some sc := by rw [replay_conns, hconn]
    rw [List.foldl_cons, ih hconn', replay_connections hconn]
    by_cases hbase : sc.loop = baseLoop
    · by_cases he : e = .closeCallback
      · simp [hbase, he, List.filter_filter]
      · simp [hbase, he, Ne.symm he]
    · simp [hbase]

theorem onConn_connections {s : Server k} (hs : s.Ids) (c : ConnId) (op : Conn → Conn) :
    (s.onConn c op).connections =
      if s.RemovesAtOnce c op then s.connections.filter fun p => p.2 ≠ c else s.connections := by
  cases hconn : s.conns c with
  | none =>
    have hnot : ¬ s.RemovesAtOnce c op := by simp [RemovesAtOnce, hconn]
    rw [if_neg hnot, onConn_of_none hconn]
  | some sc =>
    have hreplay := replays_connections (op (s.assemble sc)).trace
      (store_conns_self s c sc (op (s.assemble sc)))
    have hiff : s.RemovesAtOnce c op ↔
        sc.loop = baseLoop ∧ .closeCallback ∈ (op (s.assemble sc)).trace := by
      simp [RemovesAtOnce, hconn]
    simp only [onConn, hconn, hiff, ← hs.erase_name hconn]
    exact hreplay

/-- An operation that does not call `closeCallback_`. -/
theorem onConn_keeps_table {s : Server k} (hs : s.Ids) (c : ConnId) {op : Conn → Conn}
    {Q : Effect → Prop} (hop : ∀ d : Conn, Extends Q d.trace (op d).trace)
    (hQ : ¬ Q .closeCallback) : (s.onConn c op).connections = s.connections := by
  have hnot : ¬ s.RemovesAtOnce c op := by
    rintro ⟨sc, _, _, hclose⟩
    have hbefore := ((hop (s.assemble sc)).mem_iff hQ).mp hclose
    simp [assemble] at hbefore
  rw [onConn_connections hs, if_neg hnot]

theorem connectDestroyed_keeps_table (s : Server k) (c : ConnId) (us : List UserCall) :
    (s.onConn c (·.connectDestroyed us)).connections = s.connections := by
  cases hconn : s.conns c with
  | none => rw [onConn_of_none hconn]
  | some sc =>
    rw [onConn_connectDestroyed hconn]
    rfl

/-! ## Steps -/

theorem setPhase_ids {s : Server k} (hs : s.Ids) {ℓ : Fin (k + 1)} {p : Phase}
    (hbatch : p.batch = (s.loops ℓ).phase.batch)
    (hguarded : p.guarded = (s.loops ℓ).phase.guarded) : (s.setPhase ℓ p).Ids :=
  (setPhase_passes hbatch hguarded).ids hs

theorem execute_connections {s : Server k} (hs : s.Ids) (f : BoundFunctor)
    (howned : f.functor.owning = true → s.Held f.conn) (mem : Nat → Byte) (a : Conn.Answers) :
    (s.execute f mem a).connections =
      if f.functor = .removeConnectionInLoop then s.connections.filter fun p => p.2 ≠ f.conn
      else s.connections := by
  unfold execute
  split
  · rename_i hheld
    unfold call
    split
    · rename_i hf
      rw [if_neg (by simp [hf])]
      exact onConn_keeps_table hs _ (fun d => Conn.sendInLoop_extends d _ _) id
    · rename_i hf
      rw [if_neg (by simp [hf])]
      exact onConn_keeps_table hs _ (fun d => Conn.shutdownInLoop_extends d) (by simp)
    · rename_i hf
      rw [if_neg (by simp [hf])]
      exact onConn_keeps_table hs _ (fun d => Conn.connectEstablished_extends d _) (by simp)
    · rename_i hf
      rw [if_neg (by simp [hf])]
      exact connectDestroyed_keeps_table s _ _
    · rename_i hf
      rcases hs.created _ hheld with ⟨sc, hconn⟩
      rw [if_pos hf, removeConnectionInLoop_connections hconn, hs.erase_name hconn]
    · rename_i hf
      rw [if_neg (by simp [hf])]
    · rename_i hf
      rw [if_neg (by simp [hf])]
    · rename_i hf
      rw [if_neg (by simp [hf])]
  · rename_i hdead
    rw [if_neg]
    intro hf
    -- the functor itself owns its connection
    exact hdead (howned (by rw [hf]; rfl))

theorem removed_functor {s : Server k} {ℓ : Fin (k + 1)} {done rest : List BoundFunctor}
    {f : BoundFunctor} (hfree : s.LoopFree ℓ)
    (hphase : (s.loops ℓ).phase = .functors done (f :: rest)) (mem : Nat → Byte)
    (a : Conn.Answers) :
    s.removed (.loop ℓ (.functor mem a)) =
      if f.functor = .removeConnectionInLoop then some f.conn else none := by
  rcases f with ⟨c, f⟩
  simp only [removed, hphase]
  cases f <;> simp [hfree]

theorem removed_part {s : Server k} {ℓ : Fin (k + 1)} {c : ConnId} {p : Conn.Part}
    {rest : List Conn.Part} {active : List (ConnId × EventMask)} (hfree : s.LoopFree ℓ)
    (hphase : (s.loops ℓ).phase = .handling c (p :: rest) active) (a : Conn.Answers) :
    s.removed (.loop ℓ (.part a)) = if s.RemovesAtOnce c (·.runPart p a) then some c else none := by
  simp only [removed, hphase]
  by_cases hremoves : s.RemovesAtOnce c (·.runPart p a)
  · rw [if_pos ⟨hfree, hremoves⟩, if_pos hremoves]
  · rw [if_neg fun h => hremoves h.2, if_neg hremoves]

/-- A step that takes out the connection `c` if it meets `P`. -/
theorem tableAfter_ite {s : Server k} {e : Label k} {c : ConnId} {P : Prop} [Decidable P]
    (haccepted : s.accepted e = none) (hremoved : s.removed e = if P then some c else none) :
    s.tableAfter e = if P then s.connections.filter fun p => p.2 ≠ c else s.connections := by
  by_cases hP : P
  · simp only [tableAfter, haccepted, hremoved, if_pos hP]
  · simp only [tableAfter, haccepted, hremoved, if_neg hP]

theorem tableAfter_same {s : Server k} {e : Label k} (haccepted : s.accepted e = none)
    (hremoved : s.removed e = none) : s.tableAfter e = s.connections := by
  simp only [tableAfter, haccepted, hremoved]

theorem setPhase_removesAtOnce {s : Server k} (ℓ : Fin (k + 1)) (p : Phase) (c : ConnId)
    (op : Conn → Conn) : (s.setPhase ℓ p).RemovesAtOnce c op ↔ s.RemovesAtOnce c op := by
  unfold RemovesAtOnce
  simp only [setPhase_assemble]
  rfl

theorem loopStep_connections {s : Server k} (hs : s.Ids) {ℓ : Fin (k + 1)} (hfree : s.LoopFree ℓ)
    (e : LoopLabel) : (s.loopStep ℓ e).connections = s.tableAfter (.loop ℓ e) := by
  cases e with
  | part a =>
    simp only [loopStep]
    split
    · rename_i c p rest active hphase
      have hset : (s.setPhase ℓ (.handling c rest active)).Ids :=
        setPhase_ids hs (by rw [hphase]; rfl) (by rw [hphase]; rfl)
      rw [onConn_connections hset, tableAfter_ite rfl (removed_part hfree hphase a)]
      simp only [setPhase_removesAtOnce]
      rfl
    · rename_i hnot
      refine (tableAfter_same rfl ?_).symm
      simp only [removed]
  | functor mem a =>
    simp only [loopStep]
    split
    · rename_i done f rest hphase
      have hset : (s.setPhase ℓ (.functors (done ++ [f]) rest)).Ids :=
        setPhase_ids hs (by rw [hphase]; simp [Phase.batch]) (by rw [hphase]; rfl)
      have howned : f.functor.owning = true →
          (s.setPhase ℓ (.functors (done ++ [f]) rest)).Held f.conn := by
        intro howning
        refine ⟨.batch ℓ, f, ?_, rfl, howning⟩
        simp [setPhase, Phase.batch]
      rw [execute_connections hset f howned, tableAfter_ite rfl (removed_functor hfree hphase mem a)]
      rfl
    · rename_i hnot
      refine (tableAfter_same rfl ?_).symm
      simp only [removed]
      split
      · rename_i hphase
        exact (hnot _ _ _ hphase).elim
      · rfl
  | userCall c u =>
    simp only [loopStep]
    split
    · exact onConn_keeps_table hs c (fun d => Conn.userCall_extends d u) id
    · rfl
  | handle =>
    simp only [loopStep]
    split
    · split <;> rfl
    · rfl
  | _ =>
    simp only [loopStep]
    split <;> rfl

theorem newConnection_connections {s : Server k} (hs : s.Ids)
    (hcounter : s.nextConnId + 1 < 2 ^ 31) (fd : Nat) (ioLoop : Fin (k + 1)) (wc hw : Bool)
    (mark : Nat) (us : List UserCall) :
    (s.newConnection fd ioLoop wc hw mark us).connections =
      (s.connName s.nextConnId, s.nextConnId) :: s.connections := by
  have hadded : (s.addConnection fd ioLoop wc hw mark).connections =
      (s.connName s.nextConnId, s.nextConnId) :: s.connections := by
    have hkept : (s.connections.filter fun p => p.1 ≠ s.connName s.nextConnId) = s.connections := by
      rw [List.filter_eq_self]
      intro p hp
      simpa using hs.name_fresh hp
    calc
      (s.addConnection fd ioLoop wc hw mark).connections =
          (s.connName s.nextConnId, s.nextConnId) ::
            s.connections.filter fun p => p.1 ≠ s.connName s.nextConnId := rfl
      _ = (s.connName s.nextConnId, s.nextConnId) :: s.connections := by rw [hkept]
  have hids := addConnection_ids hs hcounter fd ioLoop wc hw mark
  rw [← hadded]
  unfold newConnection
  split
  · exact onConn_keeps_table hids _ (fun d => Conn.connectEstablished_extends d us) (by simp)
  · rfl

theorem destroyConnection_connections {s : Server k} {name : List Char} {c : ConnId}
    {sc : ServerConn k} (us : List UserCall) :
    (s.destroyConnection name c sc us).connections =
      s.connections.filter fun p => p.1 ≠ name := by
  unfold destroyConnection
  split
  · exact connectDestroyed_keeps_table (s.eraseConnection name) c us
  · rfl

/-- The table of the code, keyed by names, is changed as one that is keyed by
connections. -/
theorem step_connections {s : Server k} (hs : s.Ids) (e : Label k) :
    (s.step e).connections = s.tableAfter e := by
  cases e with
  | loop ℓ e =>
    by_cases hfree : s.LoopFree ℓ
    · simp only [step, if_pos hfree]
      exact loopStep_connections hs hfree e
    · have hremoved : s.removed (.loop ℓ e) = none := by
        cases e <;> simp only [removed, hfree, false_and, if_false] <;> split <;> rfl
      rw [tableAfter_same rfl hremoved]
      simp only [step, if_neg hfree]
  | accept fd ioLoop wc hw mark us =>
    by_cases hcan : s.CanAccept fd
    · simp only [step, tableAfter, accepted, if_pos hcan]
      exact newConnection_connections hs hcan.2.2.2.1 fd ioLoop wc hw mark us
    · simp only [step, tableAfter, accepted, removed, if_neg hcan]
  | destroyConn name us =>
    simp only [step]
    split
    · rename_i c hlife hlookup
      rcases hs.created c ⟨.map, (name, c), mem_of_lookup hlookup, rfl⟩ with ⟨sc, hconn⟩
      have hremoved : s.removed (.destroyConn name us) = some c := by
        simp only [removed, if_pos hlife, hlookup]
      simp only [hconn, tableAfter, accepted, hremoved]
      rw [destroyConnection_connections, hs.name_of_lookup hconn hlookup, hs.erase_name hconn]
    · rename_i hnot
      refine (tableAfter_same rfl ?_).symm
      simp only [removed]
      split
      · rename_i hlife
        exact Option.eq_none_iff_forall_ne_some.mpr fun c hlookup => hnot c hlife hlookup
      · rfl
  | sendQueue tid =>
    simp only [step, queueForConn]
    split
    · split <;> rfl
    · rfl
  | shutdownStore tid =>
    simp only [step, storeDisconnecting]
    split
    · split <;> rfl
    · rfl
  | shutdownQueue tid =>
    simp only [step, queueForConn]
    split
    · split <;> rfl
    · rfl
  | _ =>
    simp only [step]
    split <;> rfl

/-! ## Numbers and names along a run -/

/-- `name_ + "-" + ipPort_ + "#" + id`, without a buffer. -/
def fullName (name : List Char) (listenAddr : InetAddress) (id : Nat) : List Char :=
  name ++ '-' :: (listenAddr.toIpPort ++ '#' :: decimal id)

structure TableInv (name : List Char) (listenAddr : InetAddress) (s : Server k) : Prop where
  ids : s.Ids
  names : s.connName = EchoServer.connName name listenAddr.toIpPort
  nodup : (s.connections.map Prod.fst).Nodup

variable {name : List Char} {listenAddr : InetAddress} {s : Server k}

/-- The connection that a step accepts takes the next number. -/
theorem Ids.accepted_eq (hs : s.Ids) {e : Label k} {c : ConnId} (h : s.accepted e = some c) :
    c = s.nextConnId ∧ (s.step e).nextConnId = s.nextConnId + 1 := by
  cases e with
  | accept fd ioLoop wc hw mark us =>
    simp only [accepted] at h
    split at h
    · rename_i hcan
      have hpass := newConnection_passes hs hcan.2.2.2.1 fd ioLoop wc hw mark us
      refine ⟨(Option.some.inj h).symm, ?_⟩
      simp only [Server.step, if_pos hcan]
      exact hpass.counter
    · cases h
  | _ => cases h

theorem removed_of_accepted {e : Label k} {c : ConnId} (h : s.accepted e = some c) :
    s.removed e = none := by
  cases e with
  | accept => rfl
  | _ => cases h

/-- What a step takes out of the table is a connection that was created. -/
theorem Ids.removed_lt (hs : s.Ids) {e : Label k} {c : ConnId} (h : s.removed e = some c) :
    c < s.nextConnId := by
  have hcreated : s.Held c → c < s.nextConnId := by
    intro hheld
    rcases hs.created c hheld with ⟨sc, hconn⟩
    exact (hs.conn c sc hconn).1
  unfold removed at h
  split at h
  · rename_i ℓ mem a
    split at h
    · rename_i done c' rest hphase
      split at h
      · obtain rfl := Option.some.inj h
        refine hcreated ⟨.batch ℓ, ⟨c', .removeConnectionInLoop⟩, ?_, rfl, rfl⟩
        simp [hphase, Phase.batch]
      · cases h
    · cases h
  · rename_i ℓ a
    split at h
    · rename_i c' p rest active hphase
      split at h
      · obtain rfl := Option.some.inj h
        refine hcreated ⟨.guard ℓ, ?_⟩
        simp [Owns, hphase, Phase.guarded]
      · cases h
    · cases h
  · rename_i name us
    split at h
    · exact hcreated ⟨.map, (name, c), mem_of_lookup h, rfl⟩
    · cases h
  · cases h

theorem Step.counts (hs : s.Ids) {e : Label k} {s' : Server k} (h : Step s e s') :
    s'.connName = s.connName ∧ s.nextConnId ≤ s'.nextConnId := by
  by_cases haccept : ∀ fd ioLoop wc hw mark us, e ≠ .accept fd ioLoop wc hw mark us
  · have hkeeps := (h.outcome hs haccept).toKeeps
    exact ⟨hkeeps.names, Nat.le_of_eq hkeeps.counter.symm⟩
  · push Not at haccept
    rcases haccept with ⟨fd, ioLoop, wc, hw, mark, us, rfl⟩
    cases h with
    | accept fd ioLoop wc hw mark us hcan =>
      have hpass := newConnection_passes hs hcan.2.2.2.1 fd ioLoop wc hw mark us
      refine ⟨hpass.names, ?_⟩
      rw [hpass.counter]
      exact Nat.le_succ _

theorem step_counts (hs : s.Ids) (e : Label k) :
    (s.step e).connName = s.connName ∧ s.nextConnId ≤ (s.step e).nextConnId := by
  rcases step_cases s e with hstutter | hstep
  · rw [hstutter]
    exact ⟨rfl, Nat.le_refl _⟩
  · exact hstep.counts hs

theorem tableAfter_nodup (hs : s.Ids) (hnodup : (s.connections.map Prod.fst).Nodup)
    (e : Label k) : ((s.tableAfter e).map Prod.fst).Nodup := by
  unfold tableAfter
  split
  · rename_i c _ haccepted
    have hc := (hs.accepted_eq haccepted).1
    subst hc
    refine List.nodup_cons.mpr ⟨?_, hnodup⟩
    intro hmem
    rcases List.mem_map.mp hmem with ⟨p, hp, heq⟩
    exact hs.name_fresh hp heq
  · exact hnodup.sublist (List.filter_sublist.map _)
  · exact hnodup

theorem init_tableInv (name : List Char) (listenAddr : InetAddress) :
    TableInv name listenAddr (init k name listenAddr) where
  ids := init_ids k name listenAddr
  names := rfl
  nodup := List.nodup_nil

theorem TableInv.step (h : TableInv name listenAddr s) (e : Label k) :
    TableInv name listenAddr (s.step e) where
  ids := h.ids.step e
  names := by rw [(step_counts h.ids e).1, h.names]
  nodup := by
    rw [step_connections h.ids]
    exact tableAfter_nodup h.ids h.nodup e

theorem TableInv.connName_eq (h : TableInv name listenAddr s) {c : ConnId}
    (hc : c ≤ s.nextConnId) : s.connName c = fullName name listenAddr c := by
  rw [h.names]
  exact EchoServer.connName_eq name listenAddr (Nat.lt_of_le_of_lt hc h.ids.counter)

/-- A connection is in the table: the step enters it or leaves it there. -/
theorem TableInv.owns_map_step (h : TableInv name listenAddr s) (e : Label k) (c : ConnId) :
    (s.step e).Owns c .map ↔
      (s.Owns c .map ∨ s.accepted e = some c) ∧ ¬ s.removed e = some c := by
  simp only [Owns, step_connections h.ids, tableAfter]
  split
  · rename_i d _ haccepted
    rw [removed_of_accepted haccepted, haccepted]
    simp only [List.mem_cons, exists_eq_or_imp, Option.some.injEq, reduceCtorEq, not_false_eq_true,
      and_true]
    exact Or.comm
  · -- the entry of `d` is taken out
    rename_i d haccepted hremoved
    rw [haccepted, hremoved]
    constructor
    · rintro ⟨p, hp, rfl⟩
      rcases List.mem_filter.mp hp with ⟨hp, hne⟩
      refine ⟨Or.inl ⟨p, hp, rfl⟩, fun heq => ?_⟩
      simp [Option.some.inj heq] at hne
    · rintro ⟨⟨p, hp, rfl⟩ | hnone, hne⟩
      · refine ⟨p, List.mem_filter.mpr ⟨hp, ?_⟩, rfl⟩
        have hother : p.2 ≠ d := fun heq => hne (by rw [heq])
        simpa using hother
      · cases hnone
  · rename_i haccepted hremoved
    simp [haccepted, hremoved]

/-! ## Runs -/

/-- What the code promises of the table after the run `es`, and of every step
that can follow. -/
structure TableExact (name : List Char) (listenAddr : InetAddress) (es : List (Label k)) :
    Prop where
  keys : ((run step (init k name listenAddr) es).connections.map Prod.fst).Nodup
  /-- Accepted and not yet removed. -/
  entries : ∀ n c, (n, c) ∈ (run step (init k name listenAddr) es).connections ↔
    n = fullName name listenAddr c ∧
      SomeStep step (init k name listenAddr) (fun s e => s.accepted e = some c) es ∧
      ¬ SomeStep step (init k name listenAddr) (fun s e => s.removed e = some c) es
  /-- No name has been cut off. -/
  own : ∀ c sc, (run step (init k name listenAddr) es).conns c = some sc →
    sc.name = fullName name listenAddr c
  distinct : ∀ c c' sc sc', (run step (init k name listenAddr) es).conns c = some sc →
    (run step (init k name listenAddr) es).conns c' = some sc' → sc.name = sc'.name → c = c'
  /-- `newConnection` overwrites nothing. -/
  entering : ∀ e c, (run step (init k name listenAddr) es).accepted e = some c →
    (∀ d sc, (run step (init k name listenAddr) es).conns d = some sc →
      sc.name ≠ fullName name listenAddr c) ∧
    fullName name listenAddr c ∉
      (run step (init k name listenAddr) es).connections.map Prod.fst ∧
    (run step (init k name listenAddr) (es ++ [e])).connections =
      (fullName name listenAddr c, c) :: (run step (init k name listenAddr) es).connections
  /-- `removeConnectionInLoop` erases its own entry only. -/
  leaving : ∀ e c, (run step (init k name listenAddr) es).removed e = some c →
    (run step (init k name listenAddr) (es ++ [e])).connections =
      (run step (init k name listenAddr) es).connections.filter fun p => p.2 ≠ c

theorem tableInv_of_run (name : List Char) (listenAddr : InetAddress) (es : List (Label k)) :
    TableInv name listenAddr (run step (init k name listenAddr) es) :=
  run_invariant (TableInv name listenAddr) (fun _ e h => h.step e) (init_tableInv name listenAddr) es

/-- A connection that has left the table was accepted before. -/
theorem removed_before {c : ConnId} {es : List (Label k)}
    (h : SomeStep step (init k name listenAddr) (fun s e => s.removed e = some c) es) :
    c < (run step (init k name listenAddr) es).nextConnId := by
  refine someStep_invariant (TableInv name listenAddr) (P := fun s => c < s.nextConnId)
    (fun _ e h => h.step e) ?_ ?_ (init_tableInv name listenAddr) h
  · intro s e hs hremoved
    exact Nat.lt_of_lt_of_le (hs.ids.removed_lt hremoved) (step_counts hs.ids e).2
  · intro s e hs hc
    exact Nat.lt_of_lt_of_le hc (step_counts hs.ids e).2

theorem owns_map_iff (name : List Char) (listenAddr : InetAddress) (c : ConnId)
    (es : List (Label k)) :
    (run step (init k name listenAddr) es).Owns c .map ↔
      SomeStep step (init k name listenAddr) (fun s e => s.accepted e = some c) es ∧
      ¬ SomeStep step (init k name listenAddr) (fun s e => s.removed e = some c) es := by
  refine on_iff_someStep (TableInv name listenAddr) (P := fun s => s.Owns c .map)
    (fun _ e h => h.step e) (init_tableInv name listenAddr) ?_
    (fun s e h => h.owns_map_step e c) ?_ es
  · rintro ⟨p, hp, _⟩
    simp [init] at hp
  · -- a number is not given out twice
    intro pre e hremoved haccepted
    have hlt := removed_before hremoved
    have heq := ((tableInv_of_run name listenAddr pre).ids.accepted_eq haccepted).1
    exact Nat.ne_of_lt hlt heq

/-- For every server, every address and every order of the steps. -/
theorem connection_table_exact (name : List Char) (listenAddr : InetAddress)
    (es : List (Label k)) : TableExact name listenAddr es := by
  have hinv := tableInv_of_run name listenAddr es
  have hown : ∀ c sc, (run step (init k name listenAddr) es).conns c = some sc →
      sc.name = fullName name listenAddr c := by
    intro c sc hconn
    have hc := hinv.ids.conn c sc hconn
    rw [hc.2.1, hinv.connName_eq (Nat.le_of_lt hc.1)]
  constructor
  · exact hinv.nodup
  · intro n c
    rw [← owns_map_iff]
    have hname : ∀ p ∈ (run step (init k name listenAddr) es).connections,
        p.1 = fullName name listenAddr p.2 := by
      intro p hp
      rcases hinv.ids.created p.2 ⟨.map, p, hp, rfl⟩ with ⟨sc, hconn⟩
      rw [hinv.ids.table p hp, hinv.connName_eq (Nat.le_of_lt (hinv.ids.conn _ _ hconn).1)]
    constructor
    · intro hmem
      exact ⟨hname _ hmem, (n, c), hmem, rfl⟩
    · rintro ⟨rfl, p, hp, rfl⟩
      rw [← hname p hp]
      exact hp
  · exact hown
  · intro c c' sc sc' hconn hconn' hsame
    refine connName_injective name listenAddr ?_ ?_ ?_
    · exact Nat.lt_trans (hinv.ids.conn c sc hconn).1 hinv.ids.counter
    · exact Nat.lt_trans (hinv.ids.conn c' sc' hconn').1 hinv.ids.counter
    · rw [← hinv.names, ← (hinv.ids.conn c sc hconn).2.1, hsame, (hinv.ids.conn c' sc' hconn').2.1]
  · intro e c haccepted
    have hc := (hinv.ids.accepted_eq haccepted).1
    subst hc
    have hnext := hinv.connName_eq (Nat.le_refl _)
    refine ⟨?_, ?_, ?_⟩
    · intro d sc hconn heq
      have hd := hinv.ids.conn d sc hconn
      rw [hd.2.1, ← hnext, hinv.names] at heq
      have hid := connName_injective name listenAddr (Nat.lt_trans hd.1 hinv.ids.counter)
        hinv.ids.counter heq
      exact Nat.ne_of_lt hd.1 hid
    · rw [← hnext]
      intro hmem
      rcases List.mem_map.mp hmem with ⟨p, hp, heq⟩
      exact hinv.ids.name_fresh hp heq
    · rw [run_concat, step_connections hinv.ids]
      simp only [tableAfter, haccepted, hnext]
  · intro e c hremoved
    have haccepted : (run step (init k name listenAddr) es).accepted e = none := by
      cases haccepted : (run step (init k name listenAddr) es).accepted e with
      | none => rfl
      | some d =>
        rw [removed_of_accepted haccepted] at hremoved
        cases hremoved
    rw [run_concat, step_connections hinv.ids]
    simp only [tableAfter, haccepted, hremoved]

end Server

end EchoServer
