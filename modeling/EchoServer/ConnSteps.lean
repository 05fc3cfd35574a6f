import EchoServer.ConnView

/-!
# What a step of a server does to one connection

* `Seen`: all that a step of the server can do to the view of a connection, with what
  the connection does in it, one constructor each;
* `LoopStep.shows`, `Step.shows`: so does each step that leaves the connection in
  existence.
-/

namespace EchoServer

open Runs Trace

namespace Server

variable {k : Nat}

/-! ## What a step does to the view -/

/-- What a step does to the view of a connection of loop `ℓ`, and what the connection
does in it. `c` is the connection with the poller of its loop. -/
inductive Seen (ℓ : Fin (k + 1)) (running : Prop) (v : View) : List Effect → View → Prop where
  | same : Seen ℓ running v [] v
  | poll (revents : Option EventMask) (hpc : v.pc = .polling)
      (hreported : revents ≠ none → v.tcp.channel.index = .added) :
      Seen ℓ running v [] { v with pc := .handlers revents }
  | handle (revents : EventMask) (hpc : v.pc = .handlers (some revents)) :
      Seen ℓ running v [] { v with pc := .handling (Conn.dispatch revents) }
  | part (p : Conn.Part) (rest : List Conn.Part) (a : Conn.Answers) (c : Conn)
      (hpc : v.pc = .handling (p :: rest)) (htcp : c.tcp = v.tcp) (hnil : c.trace = []) :
      Seen ℓ running v (c.runPart p a).trace
        { v with
          tcp := (c.runPart p a).tcp
          pc := .handling rest
          pending := v.pending ++ handed ℓ (c.runPart p a).trace }
  | handled (hpc : v.pc = .handling []) : Seen ℓ running v [] { v with pc := .handlers none }
  | userCall (u : UserCall) (c : Conn) (hpc : v.pc ≠ .polling)
      (hstate : v.tcp.state ≠ .kConnecting) (htcp : c.tcp = v.tcp) (hnil : c.trace = []) :
      Seen ℓ running v (c.userCall u).trace
        { v with
          tcp := (c.userCall u).tcp
          pending := v.pending ++ World.queuedFunctors (c.userCall u).trace }
  | swap (hr : running) (hpc : v.pc = .handlers none) (hbatch : v.batch = []) :
      Seen ℓ running v [] { v with pc := .functors, batch := v.pending, pending := [] }
  | sendInLoop (buf : SentString) (rest : List Functor) (mem : Nat → Byte) (a : Conn.Answers)
      (c : Conn) (hr : running) (hpc : v.pc = .functors)
      (hbatch : v.batch = .sendInLoop buf :: rest) (htcp : c.tcp = v.tcp) (hnil : c.trace = []) :
      Seen ℓ running v (c.sendInLoop (readString mem buf) a.write).trace
        { v with
          tcp := (c.sendInLoop (readString mem buf) a.write).tcp
          batch := rest
          pending := v.pending ++
            World.queuedFunctors (c.sendInLoop (readString mem buf) a.write).trace }
  | shutdownInLoop (rest : List Functor) (a : Conn.Answers) (c : Conn) (hr : running)
      (hpc : v.pc = .functors) (hbatch : v.batch = .shutdownInLoop :: rest)
      (htcp : c.tcp = v.tcp) (hnil : c.trace = []) :
      Seen ℓ running v c.shutdownInLoop.trace
        { v with
          tcp := c.shutdownInLoop.tcp
          batch := rest
          pending := v.pending ++ World.queuedFunctors c.shutdownInLoop.trace }
  | connectEstablished (rest : List Functor) (a : Conn.Answers) (c : Conn) (hr : running)
      (hpc : v.pc = .functors) (hbatch : v.batch = .connectEstablished :: rest)
      (htcp : c.tcp = v.tcp) (hnil : c.trace = []) :
      Seen ℓ running v (c.connectEstablished a.onConnection).trace
        { v with
          tcp := (c.connectEstablished a.onConnection).tcp
          batch := rest
          pending := v.pending ++
            World.queuedFunctors (c.connectEstablished a.onConnection).trace }
  | destroyFunctor (rest : List Functor) (a : Conn.Answers) (c : Conn) (hr : running)
      (hpc : v.pc = .functors) (hbatch : v.batch = .connectDestroyed :: rest)
      (htcp : c.tcp = v.tcp) (hnil : c.trace = []) :
      Seen ℓ running v (c.connectDestroyed a.onConnection).trace
        { v with
          tcp := (c.connectDestroyed a.onConnection).tcp
          batch := rest
          pending := v.pending ++
            World.queuedFunctors (c.connectDestroyed a.onConnection).trace }
  | removeConnectionInLoop (rest : List Functor) (a : Conn.Answers) (hr : running)
      (hpc : v.pc = .functors) (hbatch : v.batch = .removeConnectionInLoop :: rest) :
      Seen ℓ running v []
        { v with batch := rest, pending := v.pending ++ [.connectDestroyed] }
  | callback (f : Functor) (rest : List Functor) (a : Conn.Answers) (hf : f.IsCallback)
      (hr : running) (hpc : v.pc = .functors) (hbatch : v.batch = f :: rest) :
      Seen ℓ running v [] { v with batch := rest }
  | endFunctors (hpc : v.pc = .functors) (hbatch : v.batch = []) :
      Seen ℓ running v [] { v with pc := .polling }
  /-- By a `~TcpServer` in the base loop's thread. -/
  | connectDestroyed (us : List UserCall) (c : Conn) (hbase : ℓ = baseLoop)
      (hpc : v.pc = .polling ∨ v.pc = .functors) (htcp : c.tcp = v.tcp) (hnil : c.trace = []) :
      Seen ℓ running v (c.connectDestroyed us).trace
        { v with
          tcp := (c.connectDestroyed us).tcp
          pending := v.pending ++ World.queuedFunctors (c.connectDestroyed us).trace }
  | queueDestroyed : Seen ℓ running v [] { v with pending := v.pending ++ [.connectDestroyed] }
  /-- The functors are dropped with their loop. -/
  | dropped (hr : ¬ running) : Seen ℓ running v [] { v with pending := [] }
  | send (tid : Nat) (buf : SentString) (hidle : v.threads tid = .idle)
      (hstate : v.tcp.state = .kConnected) (hlen : buf.content.length = buf.len) :
      Seen ℓ running v []
        { v with threads := Function.update v.threads tid (.sendAccepted buf) }
  | sendQueue (tid : Nat) (buf : SentString) (hpc : v.threads tid = .sendAccepted buf) :
      Seen ℓ running v []
        { v with
          pending := v.pending ++ [.sendInLoop buf]
          threads := Function.update v.threads tid .idle }
  | shutdown (tid : Nat) (hidle : v.threads tid = .idle) (hstate : v.tcp.state = .kConnected) :
      Seen ℓ running v []
        { v with threads := Function.update v.threads tid .shutdownChecked }
  | shutdownStore (tid : Nat) (hpc : v.threads tid = .shutdownChecked) :
      Seen ℓ running v [.setState .kDisconnecting]
        { v with
          tcp := { v.tcp with state := .kDisconnecting }
          threads := Function.update v.threads tid .shutdownStored }
  | shutdownQueue (tid : Nat) (hpc : v.threads tid = .shutdownStored) :
      Seen ℓ running v []
        { v with
          pending := v.pending ++ [.shutdownInLoop]
          threads := Function.update v.threads tid .idle }

/-! ## The steps of a loop thread -/

/-- The view of `c` after a step that does not touch it, or touches it as `Seen` says. -/
def Shows (s s' : Server k) (c : ConnId) (sc : ServerConn k) (running : Prop)
    (t : List Effect) : Prop :=
  ∃ sc', s'.conns c = some sc' ∧ sc'.loop = sc.loop ∧
    Seen sc.loop running (s.view c sc) t (s'.view c sc')

section Steps

variable {s s' : Server k} {c : ConnId} {sc : ServerConn k} {running : Prop}

theorem shows_same (hconn : s'.conns c = some sc) (hview : s'.view c sc = s.view c sc) :
    Shows s s' c sc running [] := by
  refine ⟨sc, hconn, rfl, ?_⟩
  rw [hview]
  exact Seen.same

theorem shows_of_view {v : View} {t : List Effect} (hconn : s'.conns c = some sc)
    (hview : s'.view c sc = v) (hseen : Seen sc.loop running (s.view c sc) t v) :
    Shows s s' c sc running t := by
  subst hview
  exact ⟨sc, hconn, rfl, hseen⟩

theorem onConn_conns_of_ne (s : Server k) {c d : ConnId} (op : Conn → Conn) (h : d ≠ c) :
    (s.onConn d op).conns c = s.conns c := by
  cases hconn : s.conns d with
  | none => rw [onConn_of_none hconn]
  | some sd => exact onConn_conns_ne hconn op (Ne.symm h)

/-- A phase with the same functors still to be executed. -/
theorem view_setPhase_pc (s : Server k) (p : Phase) (c : ConnId) (sc : ServerConn k)
    (hrest : p.rest = (s.loops sc.loop).phase.rest) :
    (s.setPhase sc.loop p).view c sc = { s.view c sc with pc := standing c p } := by
  rw [view_setPhase_self, hrest]
  rfl

/-- A change of phase that `c` does not see. -/
theorem view_setPhase_same {ℓ : Fin (k + 1)} {p : Phase}
    (hpc : sc.loop = ℓ → standing c p = standing c (s.loops ℓ).phase)
    (hrest : sc.loop = ℓ → boundTo c p.rest = boundTo c (s.loops ℓ).phase.rest) :
    (s.setPhase ℓ p).view c sc = s.view c sc := by
  by_cases hℓ : sc.loop = ℓ
  · subst hℓ
    rw [view_setPhase_self, hpc rfl, hrest rfl]
    rfl
  · exact view_setLoop_ne s _ c hℓ

theorem lookup_of_ne {c d : ConnId} (h : d ≠ c) (m : EventMask)
    (active : List (ConnId × EventMask)) : ((d, m) :: active).lookup c = active.lookup c := by
  have hne : (c == d) = false := by
    simpa using Ne.symm h
  rw [List.lookup_cons, hne]

theorem mem_of_lookup_active {c : ConnId} {m : EventMask} {active : List (ConnId × EventMask)}
    (h : active.lookup c = some m) : (c, m) ∈ active := by
  obtain ⟨first, last, rfl, _⟩ := List.lookup_eq_some_iff.mp h
  simp

/-- In its own loop, a functor of `c` does what `Seen` says. -/
theorem call_shows (hconn : s.conns c = some sc) {f : Functor} {rest : List Functor}
    (hr : running) (hpc : (s.view c sc).pc = .functors)
    (hbatch : (s.view c sc).batch = f :: rest) {s₁ : Server k}
    (hconn₁ : s₁.conns c = some sc) (hasm : s₁.assemble sc = s.assemble sc)
    (hview : s₁.view c sc = { s.view c sc with batch := rest })
    (mem : Nat → Byte) (a : Conn.Answers) :
    Shows s (s₁.call ⟨c, f⟩ mem a) c sc running (s.callTrace ⟨c, f⟩ mem a) := by
  have htcp : (s.assemble sc).tcp = (s.view c sc).tcp := rfl
  have hnil : (s.assemble sc).trace = [] := rfl
  have hop : ∀ op : Conn → Conn, Conn.Stays (s.assemble sc) (op (s.assemble sc)) →
      Seen sc.loop running (s.view c sc) (op (s.assemble sc)).trace
        { s.view c sc with
          tcp := (op (s.assemble sc)).tcp
          batch := rest
          pending := (s.view c sc).pending ++
            World.queuedFunctors (op (s.assemble sc)).trace } →
      Shows s (s₁.onConn c op) c sc running (s.opTrace c op) := by
    intro op hstays hseen
    have hself := view_onConn_self hconn₁ op
    have hconn' := onConn_conns_self hconn₁ op
    rw [hasm, hview, handed_of_open (hstays.not_mem hnil)] at hself
    rw [hasm] at hconn'
    refine ⟨_, hconn', rfl, ?_⟩
    rw [hself, opTrace_of_conns hconn]
    exact hseen
  cases f with
  | sendInLoop buf =>
    exact hop (·.sendInLoop (readString mem buf) a.write) (Conn.sendInLoop_stays _ _ _)
      (.sendInLoop buf rest mem a _ hr hpc hbatch htcp hnil)
  | shutdownInLoop =>
    exact hop (·.shutdownInLoop) (Conn.shutdownInLoop_stays _)
      (.shutdownInLoop rest a _ hr hpc hbatch htcp hnil)
  | connectEstablished =>
    exact hop (·.connectEstablished a.onConnection) (Conn.connectEstablished_stays _ _)
      (.connectEstablished rest a _ hr hpc hbatch htcp hnil)
  | connectDestroyed =>
    exact hop (·.connectDestroyed a.onConnection) (Conn.connectDestroyed_stays _ _)
      (.destroyFunctor rest a _ hr hpc hbatch htcp hnil)
  | removeConnectionInLoop =>
    refine shows_of_view ?_ (view_removeConnectionInLoop_self hconn₁) ?_
    · rw [call, removeConnectionInLoop_conns, hconn₁]
    · rw [hview]
      exact .removeConnectionInLoop rest a hr hpc hbatch
  | writeCompleteCallback =>
    have hcallback : Functor.writeCompleteCallback.IsCallback := trivial
    exact shows_of_view hconn₁ hview (.callback _ rest a hcallback hr hpc hbatch)
  | writeCompleteMember =>
    have hcallback : Functor.writeCompleteMember.IsCallback := trivial
    exact shows_of_view hconn₁ hview (.callback _ rest a hcallback hr hpc hbatch)
  | highWaterMarkCallback len =>
    have hcallback : (Functor.highWaterMarkCallback len).IsCallback := trivial
    exact shows_of_view hconn₁ hview (.callback _ rest a hcallback hr hpc hbatch)

theorem call_view_ne (s : Server k) {f : BoundFunctor} (h : f.conn ≠ c) (mem : Nat → Byte)
    (a : Conn.Answers) : (s.call f mem a).view c sc = s.view c sc := by
  unfold call
  split
  · exact view_onConn_ne s _ h sc
  · exact view_onConn_ne s _ h sc
  · exact view_onConn_ne s _ h sc
  · exact view_onConn_ne s _ h sc
  · exact view_removeConnectionInLoop_ne s h sc
  · rfl
  · rfl
  · rfl

theorem call_conns_ne (s : Server k) {f : BoundFunctor} (h : f.conn ≠ c) (mem : Nat → Byte)
    (a : Conn.Answers) : (s.call f mem a).conns c = s.conns c := by
  unfold call
  split
  · exact onConn_conns_of_ne s _ h
  · exact onConn_conns_of_ne s _ h
  · exact onConn_conns_of_ne s _ h
  · exact onConn_conns_of_ne s _ h
  · rw [removeConnectionInLoop_conns]
  · rfl
  · rfl
  · rfl

/-- The events of a connection are reported where its index is `Added`. -/
theorem poll_reported (hs : s.Homed) {ℓ : Fin (k + 1)} (hconn : s.conns c = some sc)
    {ready : List (Nat × EventMask)}
    (hne : (activeChannels (s.loops ℓ).poller ready).lookup c ≠ none) :
    sc.tcp.channel.index = .added := by
  obtain ⟨m, hm⟩ := Option.ne_none_iff_exists'.mp hne
  obtain ⟨_, fd, r, _, _, hr, hptr⟩ := activeChannels_homed hs (mem_of_lookup_active hm)
  obtain ⟨sd, hsd, _, _, hindex⟩ := hs.watched ℓ fd r hr
  have hptr' : r.ptr = c := hptr
  rw [hptr', hconn] at hsd
  obtain rfl := Option.some.inj hsd
  exact hindex

theorem loop_of_active (hs : s.Homed) {ℓ : Fin (k + 1)} (hconn : s.conns c = some sc)
    (hc : c ∈ (s.loops ℓ).phase.channels) : sc.loop = ℓ :=
  hasHome_loop (hs.active ℓ c hc) hconn

/-- The guard of a channel is its connection. -/
theorem handle_shows (hs : s.Homed) {ℓ : Fin (k + 1)} {d : ConnId} {revents : EventMask}
    {active : List (ConnId × EventMask)}
    (hphase : (s.loops ℓ).phase = .handlers ((d, revents) :: active))
    (hconn : s.conns c = some sc) :
    Shows s (s.setPhase ℓ (.handling d (Conn.dispatch revents) active)) c sc running [] := by
  by_cases hd : d = c
  · subst hd
    have hactive : d ∈ (s.loops ℓ).phase.channels := by
      rw [hphase]
      exact List.mem_cons_self
    obtain rfl := loop_of_active hs hconn hactive
    have hpc : (s.view d sc).pc = .handlers (some revents) := by
      simp [view, hphase, standing]
    have hview := view_setPhase_pc s (.handling d (Conn.dispatch revents) active) d sc
      (by rw [hphase]; rfl)
    rw [standing, if_pos rfl] at hview
    exact shows_of_view hconn hview (.handle revents hpc)
  · refine shows_same hconn (view_setPhase_same ?_ ?_)
    · intro _
      rw [hphase, standing, standing, if_neg hd, lookup_of_ne hd]
    · intro _
      rw [hphase]
      rfl

theorem part_shows (hs : s.Homed) {ℓ : Fin (k + 1)} {d : ConnId} {p : Conn.Part}
    {rest : List Conn.Part} {active : List (ConnId × EventMask)} (a : Conn.Answers)
    (hphase : (s.loops ℓ).phase = .handling d (p :: rest) active)
    (hconn : s.conns c = some sc) :
    Shows s ((s.setPhase ℓ (.handling d rest active)).onConn d (·.runPart p a)) c sc running
      (s.loopEffects c ℓ (.part a)) := by
  by_cases hd : d = c
  · subst hd
    have hactive : d ∈ (s.loops ℓ).phase.channels := by
      rw [hphase]
      exact List.mem_cons_self
    obtain rfl := loop_of_active hs hconn hactive
    have hpc : (s.view d sc).pc = .handling (p :: rest) := by
      simp [view, hphase, standing]
    have hview := view_setPhase_pc s (.handling d rest active) d sc (by rw [hphase]; rfl)
    rw [standing, if_pos rfl] at hview
    have hconn' : (s.setPhase sc.loop (.handling d rest active)).conns d = some sc := hconn
    have hself := view_onConn_self hconn' (·.runPart p a)
    have hstored := onConn_conns_self hconn' (·.runPart p a)
    rw [setPhase_assemble, hview] at hself
    rw [setPhase_assemble] at hstored
    have heffects : s.loopEffects d sc.loop (.part a) = ((s.assemble sc).runPart p a).trace := by
      simp [loopEffects, hphase, opTrace_of_conns hconn]
    refine ⟨_, hstored, rfl, ?_⟩
    rw [hself, heffects]
    exact .part p rest a (s.assemble sc) hpc rfl rfl
  · have heffects : s.loopEffects c ℓ (.part a) = [] := by
      simp [loopEffects, hphase, hd]
    rw [heffects]
    refine shows_same ?_ ?_
    · rw [onConn_conns_of_ne _ _ hd]
      exact hconn
    · rw [view_onConn_ne _ _ hd]
      refine view_setPhase_same ?_ ?_
      · intro _
        rw [hphase, standing, standing, if_neg hd, if_neg hd]
      · intro _
        rw [hphase]
        rfl

theorem handled_shows (hs : s.Homed) {ℓ : Fin (k + 1)} {d : ConnId}
    {active : List (ConnId × EventMask)} (hphase : (s.loops ℓ).phase = .handling d [] active)
    (hconn : s.conns c = some sc) :
    Shows s (s.setPhase ℓ (.handlers active)) c sc running [] := by
  by_cases hd : d = c
  · subst hd
    have hactive : d ∈ (s.loops ℓ).phase.channels := by
      rw [hphase]
      exact List.mem_cons_self
    obtain rfl := loop_of_active hs hconn hactive
    have hpc : (s.view d sc).pc = .handling [] := by
      simp [view, hphase, standing]
    -- it is not active a second time
    have honce := hs.once sc.loop
    rw [hphase] at honce
    have hgone : active.lookup d = none := by
      rw [List.lookup_eq_none_iff]
      intro q hq
      rw [bne_iff_ne]
      intro heq
      exact (List.nodup_cons.mp honce).1 (List.mem_map.mpr ⟨q, hq, heq.symm⟩)
    have hview := view_setPhase_pc s (.handlers active) d sc (by rw [hphase]; rfl)
    rw [standing, hgone] at hview
    exact shows_of_view hconn hview (.handled hpc)
  · refine shows_same hconn (view_setPhase_same ?_ ?_)
    · intro _
      rw [hphase, standing, standing, if_neg hd]
    · intro _
      rw [hphase]
      rfl

/-- A functor bound to `c` is executed, in the loop of `c` or, when it is
`removeConnectionInLoop`, in the base loop. -/
theorem functor_shows_self (hs : s.Homed) {ℓ : Fin (k + 1)} {done rest : List BoundFunctor}
    {f : Functor} (hphase : (s.loops ℓ).phase = .functors done (⟨c, f⟩ :: rest))
    (hconn : s.conns c = some sc) (mem : Nat → Byte) (a : Conn.Answers) :
    let s₁ := s.setPhase ℓ (.functors (done ++ [⟨c, f⟩]) rest)
    Shows s (s₁.call ⟨c, f⟩ mem a) c sc ((s₁.call ⟨c, f⟩ mem a).Running sc.loop)
      (s.callTrace ⟨c, f⟩ mem a) := by
  intro s₁
  have hconn₁ : s₁.conns c = some sc := hconn
  by_cases hℓ : sc.loop = ℓ
  · subst hℓ
    have hpc : (s.view c sc).pc = .functors := by
      simp [view, hphase, standing]
    have hbatch : (s.view c sc).batch = f :: boundTo c rest := by
      simp [view, hphase, Phase.rest, boundTo]
    have hrun : (s₁.call ⟨c, f⟩ mem a).Running sc.loop := by
      have hphase₁ : (s₁.loops sc.loop).phase = .functors (done ++ [⟨c, f⟩]) rest := by
        change (Server.loops (s.setLoop _ _) _).phase = _
        rw [setLoop_loops_self]
      rw [Running, call_phase, hphase₁]
      simp
    have hview : s₁.view c sc = { s.view c sc with batch := boundTo c rest } := by
      rw [view_setPhase_self]
      simp only [standing, Phase.rest, hpc]
    have hasm : s₁.assemble sc = s.assemble sc := setPhase_assemble s sc.loop _ sc
    exact call_shows hconn hrun hpc hbatch hconn₁ hasm hview mem a
  · -- only `removeConnectionInLoop` is executed elsewhere
    have hmine : (⟨c, f⟩ : BoundFunctor) ∈ (s.loops ℓ).queue := by
      rw [ServerLoop.queue, hphase]
      exact List.mem_cons_self
    rcases hs.queued ℓ _ hmine with hremove | hhome
    · obtain rfl : f = .removeConnectionInLoop := hremove
      have hsame : s₁.view c sc = s.view c sc := view_setLoop_ne s _ c hℓ
      refine shows_of_view ?_ (view_removeConnectionInLoop_self hconn₁) ?_
      · rw [call, removeConnectionInLoop_conns, hconn₁]
      · rw [hsame]
        exact .queueDestroyed
    · exact absurd (hasHome_loop hhome hconn) hℓ

/-- A functor bound to another connection. -/
theorem functor_shows_ne {ℓ : Fin (k + 1)} {done rest : List BoundFunctor} {f : BoundFunctor}
    (hphase : (s.loops ℓ).phase = .functors done (f :: rest)) (hf : f.conn ≠ c)
    (hconn : s.conns c = some sc) (mem : Nat → Byte) (a : Conn.Answers) :
    Shows s ((s.setPhase ℓ (.functors (done ++ [f]) rest)).execute f mem a) c sc running [] := by
  have hset : (s.setPhase ℓ (.functors (done ++ [f]) rest)).view c sc = s.view c sc := by
    refine view_setPhase_same ?_ ?_
    · intro _
      rw [hphase]
      rfl
    · intro _
      rw [hphase]
      simp [Phase.rest, boundTo, hf]
  unfold execute
  split
  · refine shows_same ?_ ?_
    · rw [call_conns_ne _ hf]
      exact hconn
    · rw [call_view_ne _ hf, hset]
  · exact shows_same hconn hset

theorem userCall_shows {ℓ : Fin (k + 1)} {d : ConnId} (u : UserCall)
    (hpolling : (s.loops ℓ).phase ≠ .polling) (hexited : (s.loops ℓ).phase ≠ .exited)
    (hlives : s.LivesIn d ℓ) (hregular : s.Regular (.loop ℓ (.userCall d u)))
    (hconn : s.conns c = some sc) :
    Shows s (s.onConn d (·.userCall u)) c sc running (s.loopEffects c ℓ (.userCall d u)) := by
  by_cases hd : d = c
  · subst hd
    obtain rfl : sc.loop = ℓ := hasHome_loop hlives.2 hconn
    have hpc : (s.view d sc).pc ≠ .polling := by
      intro hpc
      cases hphase : (s.loops sc.loop).phase with
      | polling => exact hpolling hphase
      | exited => exact hexited hphase
      | handling guard rest active =>
        simp only [view, hphase, standing] at hpc
        split at hpc
        · cases hpc
        · cases hpc
      | _ => simp [view, hphase, standing] at hpc
    have heffects : s.loopEffects d sc.loop (.userCall d u) =
        ((s.assemble sc).userCall u).trace := by
      simp [loopEffects, hpolling, hexited, hlives, opTrace_of_conns hconn]
    have hself := view_onConn_self hconn (·.userCall u)
    rw [handed_of_open ((Conn.userCall_stays _ u).not_mem rfl)] at hself
    refine ⟨_, onConn_conns_self hconn _, rfl, ?_⟩
    rw [hself, heffects]
    exact .userCall u (s.assemble sc) hpc (hregular sc hconn) rfl rfl
  · have heffects : s.loopEffects c ℓ (.userCall d u) = [] := by
      simp [loopEffects, hd]
    rw [heffects]
    refine shows_same ?_ (view_onConn_ne s _ hd sc)
    rw [onConn_conns_of_ne s _ hd, hconn]

theorem LoopStep.shows (hs : s.Homed) {ℓ : Fin (k + 1)} {e : LoopLabel} (h : LoopStep s ℓ e s')
    (hregular : s.Regular (.loop ℓ e)) (hconn : s.conns c = some sc) (hheld : s.Held c)
    (hheld' : s'.Held c) : Shows s s' c sc (s'.Running sc.loop) (s.loopEffects c ℓ e) := by
  cases h with
  | poll ready hphase =>
    by_cases hℓ : sc.loop = ℓ
    · subst hℓ
      have hpc : (s.view c sc).pc = .polling := by
        simp [view, hphase, standing]
      refine shows_of_view hconn (view_setPhase_pc s _ c sc (by rw [hphase]; rfl)) ?_
      exact .poll _ hpc fun hne => poll_reported hs hconn hne
    · exact shows_same hconn (view_setLoop_ne s _ c hℓ)
  | handle d revents active hphase hheldd => exact handle_shows hs hphase hconn
  | handleDead d revents active hphase hdead =>
    have hd : d ≠ c := by
      rintro rfl
      exact hdead hheld
    refine shows_same hconn (view_setPhase_same ?_ ?_)
    · intro _
      rw [hphase, standing, standing, lookup_of_ne hd]
    · intro _
      rw [hphase]
      rfl
  | part d p rest active a hphase => exact part_shows hs a hphase hconn
  | handled d active hphase => exact handled_shows hs hphase hconn
  | startFunctors hphase =>
    by_cases hℓ : sc.loop = ℓ
    · subst hℓ
      have hpc : (s.view c sc).pc = .handlers none := by
        simp [view, hphase, standing]
      have hbatch : (s.view c sc).batch = [] := by
        simp [view, hphase, Phase.rest, boundTo]
      have hrun : (s.setLoop sc.loop { s.loops sc.loop with
          pending := [], phase := .functors [] (s.loops sc.loop).pending }).Running sc.loop := by
        rw [Running, setLoop_loops_self]
        simp
      refine shows_of_view hconn (view_setLoop_self s _ c sc) ?_
      exact .swap hrun hpc hbatch
    · exact shows_same hconn (view_setLoop_ne s _ c hℓ)
  | functor done rest f mem a hphase =>
    obtain ⟨d, f⟩ := f
    by_cases hd : d = c
    · subst hd
      have heffects : s.loopEffects d ℓ (.functor mem a) = s.callTrace ⟨d, f⟩ mem a := by
        simp [loopEffects, hphase, hheld]
      rw [heffects]
      unfold execute at hheld' ⊢
      split at hheld'
      · rename_i hexists
        rw [if_pos hexists]
        exact functor_shows_self hs hphase hconn mem a
      · rename_i hgone
        exact absurd hheld' hgone
    · have heffects : s.loopEffects c ℓ (.functor mem a) = [] := by
        simp [loopEffects, hphase, hd]
      rw [heffects]
      exact functor_shows_ne hphase hd hconn mem a
  | endFunctors done hphase =>
    by_cases hℓ : sc.loop = ℓ
    · subst hℓ
      have hpc : (s.view c sc).pc = .functors := by
        simp [view, hphase, standing]
      have hbatch : (s.view c sc).batch = [] := by
        simp [view, hphase, Phase.rest, boundTo]
      refine shows_of_view hconn (view_setPhase_pc s _ c sc (by rw [hphase]; rfl)) ?_
      exact .endFunctors hpc hbatch
    · exact shows_same hconn (view_setLoop_ne s _ c hℓ)
  | userCall d u hpolling hexited hlives =>
    exact userCall_shows u hpolling hexited hlives hregular hconn
  | exit hphase =>
    refine shows_same hconn (view_setPhase_same ?_ ?_)
    · intro _
      rw [hphase]
      rfl
    · intro _
      rw [hphase]
      rfl

/-! ## The other steps -/

theorem destroyConnection_shows (hs : s.Homed) {name : List Char} (us : List UserCall)
    {d : ConnId} {sd : ServerConn k} (hlife : s.lifetime = .destroying)
    (hlookup : s.connections.lookup name = some d) (hconnd : s.conns d = some sd)
    (hconn : s.conns c = some sc) :
    Shows s (s.destroyConnection name d sd us) c sc running
      (effects c s (.destroyConn name us)) := by
  have heffects : effects c s (.destroyConn name us) =
      if d = c ∧ sc.loop = baseLoop then s.opTrace c (·.connectDestroyed us) else [] := by
    simp only [effects, hlife, hlookup, hconn]
  rw [heffects]
  by_cases hd : d = c
  · subst hd
    rw [hconn] at hconnd
    obtain rfl := Option.some.inj hconnd
    unfold destroyConnection
    by_cases hbase : sc.loop = baseLoop
    · rw [if_pos hbase, if_pos ⟨rfl, hbase⟩, opTrace_of_conns hconn]
      -- `~TcpServer` does not run inside a handler of its own loop
      have hpc : (s.view d sc).pc = .polling ∨ (s.view d sc).pc = .functors := by
        have haway := hs.away hlife
        rw [← hbase] at haway
        cases hphase : (s.loops sc.loop).phase with
        | polling => exact Or.inl (by simp [view, hphase, standing])
        | exited => exact Or.inl (by simp [view, hphase, standing])
        | functors => exact Or.inr (by simp [view, hphase, standing])
        | handlers => simp [hphase, Phase.inHandlers] at haway
        | handling => simp [hphase, Phase.inHandlers] at haway
      have hconn' : (s.eraseConnection name).conns d = some sc := hconn
      have hself := view_onConn_self hconn' (·.connectDestroyed us)
      have hasm : (s.eraseConnection name).assemble sc = s.assemble sc := rfl
      have hopen := (Conn.connectDestroyed_stays (s.assemble sc) us).not_mem rfl
      rw [hasm, handed_of_open hopen] at hself
      have hview : (s.eraseConnection name).view d sc = s.view d sc := rfl
      rw [hview] at hself
      refine ⟨_, onConn_conns_self hconn' _, rfl, ?_⟩
      rw [hasm, hself]
      exact .connectDestroyed us (s.assemble sc) hbase hpc rfl rfl
    · rw [if_neg hbase, if_neg fun h => hbase h.2]
      exact shows_of_view hconn
        (view_queueInLoop_self (s.eraseConnection name) .connectDestroyed d sc) .queueDestroyed
  · rw [if_neg fun h => hd h.1]
    unfold destroyConnection
    split
    · refine shows_same ?_ (view_onConn_ne (s.eraseConnection name) _ hd sc)
      rw [onConn_conns_of_ne _ _ hd]
      exact hconn
    · exact shows_same hconn (view_queueInLoop_ne (s.eraseConnection name) fun _ => hd)

/-- An accepted connection is another one. -/
theorem newConnection_shows (hs : s.Homed) (fd : Nat) (ioLoop : Fin (k + 1)) (wc hw : Bool)
    (mark : Nat) (us : List UserCall) (hconn : s.conns c = some sc) :
    Shows s (s.newConnection fd ioLoop wc hw mark us) c sc running
      (effects c s (.accept fd ioLoop wc hw mark us)) := by
  have hne : s.nextConnId ≠ c := Ne.symm (hs.ids.ne_next hconn)
  have heffects : effects c s (.accept fd ioLoop wc hw mark us) = [] := by
    simp [effects, Ne.symm hne]
  have hconn' : (s.addConnection fd ioLoop wc hw mark).conns c = some sc := by
    rw [addConnection_conns_ne (Ne.symm hne), hconn]
  rw [heffects]
  unfold newConnection
  split
  · refine shows_same ?_ (view_onConn_ne (s.addConnection fd ioLoop wc hw mark) _ hne sc)
    rw [onConn_conns_of_ne _ _ hne, hconn']
  · exact shows_same hconn' (view_queueInLoop_ne (s.addConnection fd ioLoop wc hw mark)
      fun _ => hne)

theorem queueForConn_conns (s : Server k) (f : BoundFunctor) :
    (s.queueForConn f).conns = s.conns := by
  unfold queueForConn
  split
  · rfl
  · rfl

/-- A thread hands a functor over. -/
theorem queueForConn_shows {tid : Nat} {d : ConnId} {pc : ThreadPc} (f : Functor)
    (hcall : s.calls tid = ⟨d, pc⟩) (hconn : s.conns c = some sc)
    (hseen : d = c → (s.view c sc).threads tid = pc →
      Seen sc.loop running (s.view c sc) [] { s.view c sc with
        pending := (s.view c sc).pending ++ [f]
        threads := Function.update (s.view c sc).threads tid .idle }) :
    Shows s ((s.queueForConn ⟨d, f⟩).setCall tid ⟨d, .idle⟩) c sc running [] := by
  have hconn' : ((s.queueForConn ⟨d, f⟩).setCall tid ⟨d, .idle⟩).conns c = some sc := by
    change (s.queueForConn ⟨d, f⟩).conns c = some sc
    rw [queueForConn_conns, hconn]
  have hcalls := (queueForConn_threads s ⟨d, f⟩).calls
  by_cases hd : d = c
  · subst hd
    have hthread : (s.view d sc).threads tid = pc := by
      simp [view, callOf, hcall]
    refine shows_of_view hconn' ?_ (hseen rfl hthread)
    rw [view_setCall_self, view_queueForConn_self hconn]
  · refine shows_same hconn' ?_
    rw [view_setCall_ne, view_queueForConn_ne s hd]
    · exact hd
    · simp [callOf, hcalls, hcall, hd]

theorem storeDisconnecting_conns_self (hconn : s.conns c = some sc) :
    (s.storeDisconnecting c).conns c =
      some { sc with tcp := { sc.tcp with state := .kDisconnecting } } := by
  simp only [storeDisconnecting, hconn]
  exact Function.update_self _ _ _

theorem storeDisconnecting_conns_ne (s : Server k) {d : ConnId} (h : c ≠ d) :
    (s.storeDisconnecting d).conns c = s.conns c := by
  unfold storeDisconnecting
  split
  · exact Function.update_of_ne h _ _
  · rfl

theorem Step.shows (hs : s.Homed) {e : Label k} (h : Step s e s') (hregular : s.Regular e)
    (hconn : s.conns c = some sc) (hheld : s.Held c) (hheld' : s'.Held c) :
    Shows s s' c sc (s'.Running sc.loop) (effects c s e) := by
  cases h with
  | loop ℓ e hfree hstep =>
    rw [effects, if_pos hfree]
    exact hstep.shows hs hregular hconn hheld hheld'
  | accept fd ioLoop wc hw mark us hcan =>
    exact newConnection_shows hs fd ioLoop wc hw mark us hconn
  | destroyLoop ℓ hphase =>
    by_cases hℓ : sc.loop = ℓ
    · subst hℓ
      have hdown : ¬ (s.setLoop sc.loop { s.loops sc.loop with pending := [] }).Running
          sc.loop := by
        rw [Running, setLoop_loops_self]
        exact fun hne => hne hphase
      exact shows_of_view hconn (view_setLoop_self s _ c sc) (.dropped hdown)
    · exact shows_same hconn (view_setLoop_ne s _ c hℓ)
  | destroyConn name us d sd hlife hlookup hconnd =>
    exact destroyConnection_shows hs us hlife hlookup hconnd hconn
  | dtor | dtorEnd | hold | drop => exact shows_same hconn rfl
  | send tid d buf hidle huser hstate =>
    have hthread : s.callOf c tid = .idle := by
      simp [callOf, hidle]
    by_cases hd : d = c
    · subst hd
      obtain ⟨sd, hsd, hconnected⟩ := hstate
      have hsd' : s.conns d = some sd := hsd
      rw [hconn] at hsd'
      obtain rfl := Option.some.inj hsd'
      refine shows_of_view hconn (view_setCall_self s tid _ d sc) ?_
      exact .send tid buf hthread hconnected hregular
    · exact shows_same hconn (view_setCall_ne s hd hthread sc)
  | sendQueue tid d buf hcall =>
    refine queueForConn_shows (.sendInLoop buf) hcall hconn ?_
    intro _ hthread
    exact .sendQueue tid buf hthread
  | shutdown tid d hidle huser hstate =>
    have hthread : s.callOf c tid = .idle := by
      simp [callOf, hidle]
    by_cases hd : d = c
    · subst hd
      obtain ⟨sd, hsd, hconnected⟩ := hstate
      have hsd' : s.conns d = some sd := hsd
      rw [hconn] at hsd'
      obtain rfl := Option.some.inj hsd'
      refine shows_of_view hconn (view_setCall_self s tid _ d sc) ?_
      exact .shutdown tid hthread hconnected
    · exact shows_same hconn (view_setCall_ne s hd hthread sc)
  | shutdownStore tid d hcall =>
    by_cases hd : d = c
    · subst hd
      have hthread : (s.view d sc).threads tid = .shutdownChecked := by
        simp [view, callOf, hcall]
      have heffects : effects d s (.shutdownStore tid) = [.setState .kDisconnecting] := by
        simp [effects, hcall, hconn]
      have hstore : s.storeDisconnecting d =
          s.setConn d { sc with tcp := { sc.tcp with state := .kDisconnecting } } := by
        simp only [storeDisconnecting, hconn]
      refine ⟨_, storeDisconnecting_conns_self hconn, rfl, ?_⟩
      rw [heffects, hstore, view_setCall_self]
      exact .shutdownStore tid hthread
    · have heffects : effects c s (.shutdownStore tid) = [] := by
        simp [effects, hcall, hd]
      have hconn' := (storeDisconnecting_conns_ne s (Ne.symm hd)).trans hconn
      have hview : (s.storeDisconnecting d).view c sc = s.view c sc := by
        unfold storeDisconnecting
        split
        · rfl
        · rfl
      rw [heffects]
      refine shows_same hconn' ?_
      rw [view_setCall_ne, hview]
      · exact hd
      · have hcalls := (storeDisconnecting_threads s d).calls
        simp [callOf, hcalls, hcall, hd]
  | shutdownQueue tid d hcall =>
    refine queueForConn_shows .shutdownInLoop hcall hconn ?_
    intro _ hthread
    exact .shutdownQueue tid hthread

end Steps

end Server

end EchoServer
