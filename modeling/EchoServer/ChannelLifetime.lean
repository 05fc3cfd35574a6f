import EchoServer.Stages

/-!
# Channels outlive their events

In a server whose connections are called from their own loops, and that is not
destroyed from inside a handler, the invariant `Inv` holds in every state: the
connections of `activeChannels_` exist until their handlers have been called,
and a connection that was established is in neither the kernel's interest set
nor `channels_` when it is destroyed (`channels_outlive_events`).
-/

namespace EchoServer

open Runs Trace

namespace Server

variable {k : Nat}

structure Inv (s : Server k) : Prop where
  sane : s.Sane
  staged : s.Staged

/-! ## Stages across one operation -/

/-- State and index are as before. -/
theorem Stage.of_same {s : Server k} {c : ConnId} {sc : ServerConn k} (h : s.Stage c sc)
    {t : TcpConnection} (hstate : t.state = sc.tcp.state)
    (hindex : t.channel.index = sc.tcp.channel.index) : s.Stage c { sc with tcp := t } := by
  cases h with
  | connecting rest hs hi hloop hlife honce hsecured =>
    exact .connecting rest (hstate.trans hs) (hindex.trans hi) hloop hlife honce hsecured
  | up hs hi hlife hsecured => exact .up (by rwa [hstate]) (by rwa [hindex]) hlife hsecured
  | gone hs hconnected hi hlife =>
    exact .gone (by rwa [hstate]) (by rwa [hstate]) (hindex.trans hi) hlife

/-- A connection that is up stays up by moves. -/
theorem Stage.of_moves {s : Server k} {c : ConnId} {sc : ServerConn k} (h : s.Stage c sc)
    (hup : sc.tcp.channel.index ≠ .new) {r : Conn} (hmoves : Conn.Moves (s.assemble sc) r) :
    s.Stage c { sc with tcp := r.tcp } := by
  cases h with
  | connecting rest hs hi hloop hlife honce hsecured => exact absurd hi hup
  | up hs hi hlife hsecured =>
    exact .up (hmoves.state (Or.inl rfl) hs) (hmoves.index hi) hlife hsecured
  | gone hs hconnected hi hlife => exact absurd hi hup

/-- On a connection that is not up, `send` and `shutdown` do nothing. -/
theorem Stage.userCall {s : Server k} {c : ConnId} {sc : ServerConn k} (h : s.Stage c sc)
    (u : UserCall) : s.Stage c { sc with tcp := ((s.assemble sc).userCall u).tcp } := by
  by_cases hconnected : sc.tcp.state = .kConnected
  · refine h.of_moves ?_ (Conn.userCall_moves _ u)
    cases h with
    | connecting rest hs => simp [hconnected] at hs
    | up hs hi => exact hi
    | gone hs hnot => exact absurd hconnected hnot
  · have hconsumes := Conn.userCall_onlyConsumes (c := s.assemble sc) hconnected u
    exact h.of_same hconsumes.state (by rw [hconsumes.channel]; rfl)

theorem Stage.shutdownInLoop {s : Server k} {c : ConnId} {sc : ServerConn k}
    (h : s.Stage c sc) : s.Stage c { sc with tcp := (s.assemble sc).shutdownInLoop.tcp } := by
  rw [Conn.shutdownInLoop_tcp]
  exact h

theorem Stage.connectDestroyed {s : Server k} {c : ConnId} {sc : ServerConn k}
    (hstate : sc.tcp.state ≠ .kConnecting)
    (hlife : .connectEstablished ∉ (s.loops sc.loop).life c) (us : List UserCall) :
    s.Stage c { sc with tcp := ((s.assemble sc).connectDestroyed us).tcp } := by
  have hdestroyed := Conn.connectDestroyed_state (c := s.assemble sc) hstate us
  exact .gone hdestroyed.2 hdestroyed.1 (Conn.connectDestroyed_index _ us) hlife

theorem Stage.connectEstablished {s : Server k} {c : ConnId} {sc : ServerConn k}
    (hlife : .connectEstablished ∉ (s.loops sc.loop).life c) (hsecured : s.Secured c sc.loop)
    (us : List UserCall) :
    s.Stage c { sc with tcp := ((s.assemble sc).connectEstablished us).tcp } :=
  .up (Conn.connectEstablished_not_connecting _ us) (Conn.connectEstablished_index _ us) hlife
    hsecured

/-- Every connection is in a stage after an operation if its own outcome is. -/
theorem onConn_staged {s : Server k} (hs : s.Ids) {c : ConnId} {sc : ServerConn k}
    (hconn : s.conns c = some sc) {op : Conn → Conn}
    (hqueued : ∀ f, .queueInLoop f ∈ (op (s.assemble sc)).trace → f.OwnThread)
    (hothers : ∀ d sd, d ≠ c → s.conns d = some sd → s.Running sd.loop → s.Stage d sd)
    (hself : s.Running sc.loop → s.Stage c { sc with tcp := (op (s.assemble sc)).tcp }) :
    (s.onConn c op).Staged := by
  intro d sd hsd hrun
  rw [Running, onConn_phase] at hrun
  by_cases heq : d = c
  · subst heq
    rw [onConn_conns_self hconn op] at hsd
    obtain rfl := Option.some.inj hsd
    obtain ⟨extra, hlife, hextra, hsecured⟩ := onConn_life hs hconn hqueued d sc hconn
    exact (hself hrun).mono hlife hextra hsecured
  · rw [onConn_conns_ne hconn op heq] at hsd
    obtain ⟨extra, hlife, hextra, hsecured⟩ := onConn_life hs hconn hqueued d sd hsd
    exact (hothers d sd heq hsd hrun).mono hlife hextra hsecured

/-- Connections, table and the waiting `connectEstablished` and
`connectDestroyed` are as before. -/
theorem Staged.of_frame {s s' : Server k} (h : s.Staged) (hconns : s'.conns = s.conns)
    (hlife : ∀ ℓ, s'.Running ℓ → ∀ c, (s'.loops ℓ).life c = (s.loops ℓ).life c)
    (htable : s'.connections = s.connections) (hrun : ∀ ℓ, s'.Running ℓ → s.Running ℓ) :
    s'.Staged := by
  intro c sc hsc hℓ
  rw [hconns] at hsc
  refine (h c sc hsc (hrun _ hℓ)).of_life_eq (hlife _ hℓ c) ?_
  rintro ⟨p, hp, rfl⟩
  exact Or.inl ⟨p, by rwa [htable], rfl⟩

/-! ## The steps of a loop thread -/

theorem Inv.alive {s : Server k} (h : s.Inv) : s.Alive := h.staged.alive

/-- The loop moves on between handlers and functors. -/
theorem Inv.setLoop {s : Server k} (h : s.Inv) {ℓ : Fin (k + 1)} {l : ServerLoop}
    (hfree : s.LoopFree ℓ) (hkeeps : Keeps s (s.setLoop ℓ l))
    (hpoller : l.poller = (s.loops ℓ).poller) (hqueue : l.queue = (s.loops ℓ).queue)
    (hactive : ∀ c ∈ l.phase.channels, s.Enrolled ℓ c)
    (hrun : s.Running ℓ) : (s.setLoop ℓ l).Inv where
  sane := h.sane.setLoop hkeeps hpoller (fun f hf => Or.inl (by rwa [← hqueue])) hactive
    (fun _ => hrun) (fun hℓ hlife => absurd hlife (hfree hℓ))
  staged := by
    refine h.staged.of_frame rfl ?_ rfl ?_
    · intro ℓ' _ c
      by_cases hℓ : ℓ' = ℓ
      · rw [hℓ, setLoop_loops_self, ServerLoop.life, ServerLoop.life, hqueue]
      · rw [setLoop_loops_ne s l hℓ]
    · intro ℓ' hℓ'
      by_cases hℓ : ℓ' = ℓ
      · rw [hℓ]
        exact hrun
      · rw [Running, setLoop_loops_ne s l hℓ] at hℓ'
        exact hℓ'

/-- One operation of an enrolled or otherwise known connection. -/
theorem Inv.onConn {s : Server k} (h : s.Inv) {c : ConnId} {sc : ServerConn k}
    (hconn : s.conns c = some sc) (hheld : s.Held c) {op : Conn → Conn}
    (hop : ∀ d, Conn.Localized d (op d))
    (hqueued : ∀ f, .queueInLoop f ∈ (op (s.assemble sc)).trace → f.OwnThread)
    (hactive : ∀ ℓ, c ∈ (s.loops ℓ).phase.channels →
      (op (s.assemble sc)).tcp.channel.index ≠ .new)
    (hself : s.Running sc.loop → s.Stage c { sc with tcp := (op (s.assemble sc)).tcp }) :
    (s.onConn c op).Inv where
  sane := onConn_sane h.sane h.alive hconn hheld hop hqueued hactive
  staged := onConn_staged h.sane.ids hconn hqueued
    (fun d sd _ hsd hrun => h.staged d sd hsd hrun) hself

/-- `epoll_wait` reports enrolled connections. -/
theorem enrolled_of_activeChannels {s : Server k} {ℓ : Fin (k + 1)} (hok : s.PollerOk ℓ)
    {ready : List (Nat × EventMask)} {p : ConnId × EventMask}
    (hp : p ∈ activeChannels (s.loops ℓ).poller ready) : s.Enrolled ℓ p.1 := by
  obtain ⟨q, _, hq⟩ := List.mem_filterMap.mp hp
  obtain ⟨r, hr, rfl⟩ := Option.map_eq_some_iff.mp hq
  obtain ⟨sc, hsc, hloop, _, hindex⟩ := hok.epoll _ r hr
  exact ⟨sc, hsc, hloop, by simp [hindex]⟩

theorem part_inv {s : Server k} (h : s.Inv) {ℓ : Fin (k + 1)} (hfree : s.LoopFree ℓ) {c : ConnId}
    {p : Conn.Part} {rest : List Conn.Part} {active : List (ConnId × EventMask)}
    (hphase : (s.loops ℓ).phase = .handling c (p :: rest) active) (a : Conn.Answers) :
    ((s.setPhase ℓ (.handling c rest active)).onConn c (·.runPart p a)).Inv := by
  have hpass : Passes s (s.setPhase ℓ (.handling c rest active)) :=
    setPhase_passes (by rw [hphase]; rfl) (by rw [hphase]; rfl)
  have hrun : s.Running ℓ := by simp [Running, hphase]
  have hset : (s.setPhase ℓ (.handling c rest active)).Inv := by
    refine h.setLoop hfree hpass.toKeeps rfl ?_ ?_ hrun
    · simp [ServerLoop.queue, hphase, Phase.rest]
    · intro d hd
      exact h.sane.active ℓ d (by rw [hphase]; exact hd)
  obtain ⟨sc, hsc, hloop, hindex⟩ := h.sane.active ℓ c (by simp [hphase, Phase.channels])
  have hheld : s.Held c := ⟨.guard ℓ, by simp [Owns, hphase, Phase.guarded]⟩
  have hmoves := Conn.runPart_moves ((s.setPhase ℓ (.handling c rest active)).assemble sc) p a
  refine hset.onConn hsc (hpass.kept c hheld) (fun d => (Conn.runPart_moves d p a).localized)
    ?_ ?_ ?_
  · intro f hf
    exact (hmoves.queued hf).resolve_left (by simp [assemble])
  · intro _ _
    exact hmoves.index hindex
  · intro hrun'
    exact (hset.staged c sc hsc hrun').of_moves hindex hmoves

theorem userCall_inv {s : Server k} (h : s.Inv) {ℓ : Fin (k + 1)} {c : ConnId}
    (hlives : s.LivesIn c ℓ) (u : UserCall) : (s.onConn c (·.userCall u)).Inv := by
  obtain ⟨hheld, sc, hsc, _⟩ := hlives
  have hmoves := Conn.userCall_moves (s.assemble sc) u
  refine h.onConn hsc hheld (fun d => (Conn.userCall_moves d u).localized) ?_ ?_ ?_
  · intro f hf
    exact (hmoves.queued hf).resolve_left (by simp [assemble])
  · intro ℓ' hc
    obtain ⟨sd, hsd, _, hindex⟩ := h.sane.active ℓ' c hc
    have heq : sd = sc := Option.some.inj (hsd.symm.trans hsc)
    rw [heq] at hindex
    exact hmoves.index hindex
  · intro hrun
    exact (h.staged c sc hsc hrun).userCall u

theorem shutdownInLoop_inv {s : Server k} (h : s.Inv) {c : ConnId} {sc : ServerConn k}
    (hconn : s.conns c = some sc) (hheld : s.Held c) : (s.onConn c (·.shutdownInLoop)).Inv := by
  refine h.onConn hconn hheld (fun d => (Conn.shutdownInLoop_moves d).localized) ?_ ?_ ?_
  · intro f hf
    exact ((Conn.shutdownInLoop_moves (s.assemble sc)).queued hf).resolve_left (by simp [assemble])
  · intro ℓ hc
    obtain ⟨sd, hsd, _, hindex⟩ := h.sane.active ℓ c hc
    have heq : sd = sc := Option.some.inj (hsd.symm.trans hconn)
    rw [Conn.shutdownInLoop_tcp]
    rwa [heq] at hindex
  · intro hrun
    exact (h.staged c sc hconn hrun).shutdownInLoop

/-- `connectEstablished`, when none waits for the connection any more. -/
theorem connectEstablished_inv {s : Server k} (hsane : s.Sane) (halive : s.Alive) {c : ConnId}
    {sc : ServerConn k} (hconn : s.conns c = some sc) (hheld : s.Held c)
    (hothers : ∀ d sd, d ≠ c → s.conns d = some sd → s.Running sd.loop → s.Stage d sd)
    (hlife : .connectEstablished ∉ (s.loops sc.loop).life c) (hsecured : s.Secured c sc.loop)
    (us : List UserCall) : (s.onConn c (·.connectEstablished us)).Inv := by
  have hqueued : ∀ f, .queueInLoop f ∈ ((s.assemble sc).connectEstablished us).trace →
      f.OwnThread := by
    intro f hf
    exact (Conn.connectEstablished_queued hf).resolve_left (by simp [assemble])
  constructor
  · refine onConn_sane hsane halive hconn hheld
      (fun d => Conn.connectEstablished_localized d us) hqueued ?_
    intro _ _
    exact Conn.connectEstablished_index _ us
  · refine onConn_staged hsane.ids hconn hqueued hothers ?_
    intro _
    exact Stage.connectEstablished hlife hsecured us

/-- `connectDestroyed` of an established connection, with no handler of it to
come. -/
theorem connectDestroyed_inv {s : Server k} (hsane : s.Sane) (halive : s.Alive) {c : ConnId}
    {sc : ServerConn k} (hconn : s.conns c = some sc) (hheld : s.Held c)
    (hothers : ∀ d sd, d ≠ c → s.conns d = some sd → s.Running sd.loop → s.Stage d sd)
    (hinactive : ∀ ℓ, c ∉ (s.loops ℓ).phase.channels)
    (hself : s.Running sc.loop → sc.tcp.state ≠ .kConnecting ∧
      .connectEstablished ∉ (s.loops sc.loop).life c) (us : List UserCall) :
    (s.onConn c (·.connectDestroyed us)).Inv := by
  have hqueued : ∀ f, .queueInLoop f ∈ ((s.assemble sc).connectDestroyed us).trace →
      f.OwnThread := by
    intro f hf
    exact (Conn.connectDestroyed_queued hf).resolve_left (by simp [assemble])
  constructor
  · refine onConn_sane hsane halive hconn hheld
      (fun d => Conn.connectDestroyed_localized d us) hqueued ?_
    intro ℓ hc
    exact absurd hc (hinactive ℓ)
  · refine onConn_staged hsane.ids hconn hqueued hothers ?_
    intro hrun
    exact Stage.connectDestroyed (hself hrun).1 (hself hrun).2 us

/-! ## Functors -/

/-- The functor about to be executed leaves the queue. -/
theorem life_next {s : Server k} {ℓ : Fin (k + 1)} {done rest : List BoundFunctor}
    {f : BoundFunctor} (hphase : (s.loops ℓ).phase = .functors done (f :: rest)) (c : ConnId) :
    (s.loops ℓ).life c = (if f.IsLife c then [f.functor] else []) ++
      ((s.setPhase ℓ (.functors (done ++ [f]) rest)).loops ℓ).life c := by
  by_cases hlife : f.IsLife c
  · simp [ServerLoop.life, ServerLoop.queue, setPhase, hphase, Phase.rest, hlife]
  · simp [ServerLoop.life, ServerLoop.queue, setPhase, hphase, Phase.rest, hlife]

/-- Its own connection apart, every connection is in the same stage without it. -/
theorem stage_next {s : Server k} (h : s.Inv) {ℓ : Fin (k + 1)} {done rest : List BoundFunctor}
    {f : BoundFunctor} (hphase : (s.loops ℓ).phase = .functors done (f :: rest)) {c : ConnId}
    {sc : ServerConn k} (hconn : s.conns c = some sc) (hrun : s.Running sc.loop)
    (hother : ¬ f.IsLife c) :
    (s.setPhase ℓ (.functors (done ++ [f]) rest)).Stage c sc := by
  refine (h.staged c sc hconn hrun).of_life_eq ?_ Or.inl
  by_cases hℓ : sc.loop = ℓ
  · rw [hℓ, life_next hphase, if_neg hother, List.nil_append]
  · rw [setPhase, setLoop_loops_ne s _ hℓ]

/-- What is established or destroyed next, in which stage. -/
theorem stage_of_next {s : Server k} (h : s.Inv) {ℓ : Fin (k + 1)}
    {done rest : List BoundFunctor} {c : ConnId} {g : Functor}
    (hphase : (s.loops ℓ).phase = .functors done (⟨c, g⟩ :: rest)) {sc : ServerConn k}
    (hconn : s.conns c = some sc) (hloop : sc.loop = ℓ) :
    (g = .connectEstablished →
      .connectEstablished ∉ ((s.setPhase ℓ (.functors (done ++ [⟨c, g⟩]) rest)).loops ℓ).life c ∧
        (s.setPhase ℓ (.functors (done ++ [⟨c, g⟩]) rest)).Secured c ℓ) ∧
    (g = .connectDestroyed → sc.tcp.state ≠ .kConnecting ∧
      .connectEstablished ∉ ((s.setPhase ℓ (.functors (done ++ [⟨c, g⟩]) rest)).loops ℓ).life c) := by
  subst hloop
  have hnext := life_next hphase c
  have hstage := h.staged c sc hconn (by simp [Running, hphase])
  constructor
  · rintro rfl
    rw [if_pos ⟨rfl, Or.inl rfl⟩] at hnext
    -- only one stage has this functor in front
    cases hstage with
    | connecting rest' hstate hindex hloop hlife honce hsecured =>
      rw [hnext] at hlife
      have hrest := (List.cons.inj hlife).2
      rw [← hrest] at honce
      refine ⟨honce, ?_⟩
      rcases hsecured with hmap | hdestroy
      · exact Or.inl hmap
      · refine Or.inr ?_
        rw [hnext] at hdestroy
        simpa using hdestroy
    | up hstate hindex hlife hsecured => simp [hnext] at hlife
    | gone hstate hconnected hindex hlife => simp [hnext] at hlife
  · rintro rfl
    rw [if_pos ⟨rfl, Or.inr rfl⟩] at hnext
    cases hstage with
    | connecting rest' hstate hindex hloop hlife honce hsecured => simp [hnext] at hlife
    | up hstate hindex hlife hsecured =>
      rw [hnext] at hlife
      exact ⟨hstate, by simpa using hlife⟩
    | gone hstate hconnected hindex hlife =>
      rw [hnext] at hlife
      exact ⟨hstate, by simpa using hlife⟩

/-- `removeConnectionInLoop` hands the connection over to its loop. -/
theorem removeConnectionInLoop_inv {s : Server k} (h : s.Inv) {c : ConnId} (hheld : s.Held c) :
    (s.removeConnectionInLoop c).Inv := by
  have hpass := removeConnectionInLoop_passes h.sane.ids hheld
  have hthreads := removeConnectionInLoop_threads s c
  have hphase := removeConnectionInLoop_phase s c
  cases hconn : s.conns c with
  | none =>
    rw [removeConnectionInLoop, hconn]
    exact h
  | some sc =>
    have heq : s.removeConnectionInLoop c =
        (s.eraseConnection sc.name).queueInLoop sc.loop ⟨c, .connectDestroyed⟩ := by
      simp [removeConnectionInLoop, hconn]
    have hreplay : Replayed c sc.loop [] s (s.removeConnectionInLoop c) :=
      removeConnectionInLoop_replayed hconn rfl
    constructor
    · refine h.sane.of_frame hpass.toKeeps hreplay.conns hthreads.calls ?_ ?_ ?_ hreplay.poller ?_
      · rw [hthreads.lifetime, hphase]
        exact h.sane.away
      · intro ℓ f hf
        rcases List.mem_append.mp hf with hf | hf
        · rw [hphase] at hf
          exact Or.inl (List.mem_append_left _ hf)
        · rcases (hreplay.pending ℓ).mem_or hf with hf | ⟨rfl, ⟨_, hin⟩ | ⟨_, hg⟩ | ⟨rfl, hg⟩⟩
          · exact Or.inl (List.mem_append_right _ hf)
          · cases hin
          · exact Or.inr (Or.inl hg)
          · exact Or.inr (Or.inr ⟨by simp [hg], sc, hconn, rfl⟩)
      · intro ℓ d hd
        rw [hphase] at hd
        exact h.sane.active ℓ d hd
      · intro ℓ hℓ
        rwa [Running, hphase] at hℓ
    · intro d sd hsd hrun
      rw [Running, hphase] at hrun
      rw [hreplay.conns] at hsd
      rw [heq]
      exact erase_queue_stage h.sane.ids hconn (h.staged d sd hsd hrun) hsd

theorem sane_next {s : Server k} (h : s.Inv) {ℓ : Fin (k + 1)} (hfree : s.LoopFree ℓ)
    {done rest : List BoundFunctor} {f : BoundFunctor}
    (hphase : (s.loops ℓ).phase = .functors done (f :: rest)) :
    (s.setPhase ℓ (.functors (done ++ [f]) rest)).Sane ∧
      (s.setPhase ℓ (.functors (done ++ [f]) rest)).Alive := by
  have hpass : Passes s (s.setPhase ℓ (.functors (done ++ [f]) rest)) :=
    setPhase_passes (by rw [hphase]; simp [Phase.batch]) (by rw [hphase]; rfl)
  have hrun : s.Running ℓ := by simp [Running, hphase]
  constructor
  · refine h.sane.setLoop hpass.toKeeps rfl ?_ ?_ (fun _ => hrun)
      (fun hℓ hlife => absurd hlife (hfree hℓ))
    · intro g hg
      refine Or.inl ?_
      rcases List.mem_append.mp hg with hg | hg
      · refine List.mem_append_left _ ?_
        rw [hphase]
        exact List.mem_cons_of_mem _ hg
      · exact List.mem_append_right _ hg
    · intro c hc
      simp [Phase.channels] at hc
  · refine h.alive.held hpass.kept ?_ fun _ _ henrolled => henrolled
    intro ℓ' hℓ'
    by_cases hℓ : ℓ' = ℓ
    · rw [hℓ]
      exact hrun
    · rwa [Running, setPhase, setLoop_loops_ne s _ hℓ] at hℓ'

/-- The loops that run are the same while a batch is executed. -/
theorem running_next {s : Server k} {ℓ ℓ' : Fin (k + 1)} {done done' rest rest' : List BoundFunctor}
    (hphase : (s.loops ℓ).phase = .functors done rest)
    (hrun : (s.setPhase ℓ (.functors done' rest')).Running ℓ') : s.Running ℓ' := by
  by_cases hℓ : ℓ' = ℓ
  · simp [Running, hℓ, hphase]
  · rwa [Running, setPhase, setLoop_loops_ne s _ hℓ] at hrun

theorem functor_inv {s : Server k} (h : s.Inv) {ℓ : Fin (k + 1)} (hfree : s.LoopFree ℓ)
    {done rest : List BoundFunctor} {c : ConnId} {g : Functor}
    (hphase : (s.loops ℓ).phase = .functors done (⟨c, g⟩ :: rest)) (mem : Nat → Byte)
    (a : Conn.Answers) :
    ((s.setPhase ℓ (.functors (done ++ [⟨c, g⟩]) rest)).execute ⟨c, g⟩ mem a).Inv := by
  obtain ⟨hsane, halive⟩ := sane_next h hfree hphase
  have hbatch : ∀ d, BoundFunctor.Owns ⟨c, g⟩ d →
      (s.setPhase ℓ (.functors (done ++ [⟨c, g⟩]) rest)).Held d := by
    intro d hd
    exact ⟨.batch ℓ, ⟨c, g⟩, by simp [setPhase, Phase.batch], hd⟩
  have hothers : ∀ d sd, ¬ BoundFunctor.IsLife d ⟨c, g⟩ → s.conns d = some sd →
      (s.setPhase ℓ (.functors (done ++ [⟨c, g⟩]) rest)).Running sd.loop →
      (s.setPhase ℓ (.functors (done ++ [⟨c, g⟩]) rest)).Stage d sd :=
    fun d sd hnot hsd hrun => stage_next h hphase hsd (running_next hphase hrun) hnot
  have hinv : g ≠ .connectEstablished → g ≠ .connectDestroyed →
      (s.setPhase ℓ (.functors (done ++ [⟨c, g⟩]) rest)).Inv := by
    intro hne hnd
    refine ⟨hsane, fun d sd hsd hrun => hothers d sd ?_ hsd hrun⟩
    rintro ⟨_, hg | hg⟩
    · exact hne hg
    · exact hnd hg
  have hplaced := h.sane.queued ℓ ⟨c, g⟩ (by simp [ServerLoop.queue, hphase, Phase.rest])
  cases g with
  -- only another thread queues a `send`, and here none calls it
  | sendInLoop buf =>
    rcases hplaced with hg | ⟨hsend, _⟩
    · cases hg
    · exact absurd rfl (hsend buf)
  | shutdownInLoop =>
    obtain ⟨_, sc, hsc, _⟩ := hplaced.resolve_left (by simp)
    -- `this` may be gone
    unfold execute
    split
    · rename_i hheld
      exact shutdownInLoop_inv (hinv (by simp) (by simp)) hsc hheld
    · exact hinv (by simp) (by simp)
  | connectEstablished =>
    obtain ⟨_, sc, hsc, hloop⟩ := hplaced.resolve_left (by simp)
    obtain ⟨hlife, hsecured⟩ := (stage_of_next h hphase hsc hloop).1 rfl
    subst hloop
    have hheld := hbatch c ⟨rfl, rfl⟩
    rw [execute, if_pos hheld]
    refine connectEstablished_inv hsane halive hsc hheld ?_ hlife hsecured a.onConnection
    intro d sd hne hsd hrun
    exact hothers d sd (fun hlife => hne hlife.1.symm) hsd hrun
  | connectDestroyed =>
    obtain ⟨_, sc, hsc, hloop⟩ := hplaced.resolve_left (by simp)
    obtain ⟨hstate, hlife⟩ := (stage_of_next h hphase hsc hloop).2 rfl
    subst hloop
    have hheld := hbatch c ⟨rfl, rfl⟩
    rw [execute, if_pos hheld]
    refine connectDestroyed_inv hsane halive hsc hheld ?_ ?_
      (fun _ => ⟨hstate, hlife⟩) a.onConnection
    · intro d sd hne hsd hrun
      exact hothers d sd (fun hlife => hne hlife.1.symm) hsd hrun
    · -- the active channels belong to other loops
      intro ℓ' hc
      obtain ⟨sd, hsd, hloop', _⟩ := hsane.active ℓ' c hc
      have heq : sd = sc := Option.some.inj (hsd.symm.trans hsc)
      rw [heq] at hloop'
      rw [← hloop'] at hc
      simp [setPhase, Phase.channels] at hc
  | removeConnectionInLoop =>
    rw [execute, if_pos (hbatch c ⟨rfl, rfl⟩)]
    exact removeConnectionInLoop_inv (hinv (by simp) (by simp)) (hbatch c ⟨rfl, rfl⟩)
  | writeCompleteCallback =>
    rw [execute, if_pos (hbatch c ⟨rfl, rfl⟩)]
    exact hinv (by simp) (by simp)
  | writeCompleteMember =>
    rw [execute, if_pos (hbatch c ⟨rfl, rfl⟩)]
    exact hinv (by simp) (by simp)
  | highWaterMarkCallback len =>
    rw [execute, if_pos (hbatch c ⟨rfl, rfl⟩)]
    exact hinv (by simp) (by simp)

theorem LoopStep.inv {s s' : Server k} (h : s.Inv) {ℓ : Fin (k + 1)} {e : LoopLabel}
    (hfree : s.LoopFree ℓ) (hstep : LoopStep s ℓ e s') : s'.Inv := by
  have hkeeps := (hstep.outcome h.sane.ids hfree).toKeeps
  have hrun : s.Running ℓ := hstep.running
  cases hstep with
  | poll ready hphase =>
    refine h.setLoop hfree hkeeps rfl ?_ ?_ hrun
    · simp [ServerLoop.queue, hphase, Phase.rest]
    · intro c hc
      obtain ⟨p, hp, rfl⟩ := List.mem_map.mp hc
      exact enrolled_of_activeChannels (h.sane.pollers ℓ hrun) hp
  | handle c revents active hphase hheld =>
    refine h.setLoop hfree hkeeps rfl ?_ ?_ hrun
    · simp [ServerLoop.queue, hphase, Phase.rest]
    · intro d hd
      exact h.sane.active ℓ d (by simpa [hphase, Phase.channels] using hd)
  | handleDead c revents active hphase hdead =>
    refine h.setLoop hfree hkeeps rfl ?_ ?_ hrun
    · simp [ServerLoop.queue, hphase, Phase.rest]
    · intro d hd
      exact h.sane.active ℓ d (by rw [hphase]; exact List.mem_cons_of_mem _ hd)
  | part c p rest active a hphase => exact part_inv h hfree hphase a
  | handled c active hphase =>
    refine h.setLoop hfree hkeeps rfl ?_ ?_ hrun
    · simp [ServerLoop.queue, hphase, Phase.rest]
    · intro d hd
      exact h.sane.active ℓ d (by rw [hphase]; exact List.mem_cons_of_mem _ hd)
  | startFunctors hphase =>
    refine h.setLoop hfree hkeeps rfl ?_ ?_ hrun
    · simp [ServerLoop.queue, hphase, Phase.rest]
    · simp [Phase.channels]
  | functor done rest f mem a hphase => exact functor_inv h hfree hphase mem a
  | endFunctors done hphase =>
    refine h.setLoop hfree hkeeps rfl ?_ ?_ hrun
    · simp [ServerLoop.queue, hphase, Phase.rest]
    · simp [Phase.channels]
  | userCall c u hpolling hexited hlives => exact userCall_inv h hlives u
  | exit hphase =>
    refine h.setLoop hfree hkeeps rfl ?_ ?_ hrun
    · simp [ServerLoop.queue, hphase, Phase.rest]
    · simp [Phase.channels]

/-! ## Accepting -/

theorem addConnection_sane {s : Server k} (h : s.Inv) {fd : Nat} (hcan : s.CanAccept fd)
    (ioLoop : Fin (k + 1)) (wc hw : Bool) (mark : Nat) :
    (s.addConnection fd ioLoop wc hw mark).Sane := by
  obtain ⟨_, _, hlife, hcounter, hopen⟩ := hcan
  have hids := h.sane.ids
  have hkeep : ∀ c sc, s.conns c = some sc →
      (s.addConnection fd ioLoop wc hw mark).conns c = some sc := by
    intro c sc hsc
    rw [addConnection_conns_ne]
    · exact hsc
    · rintro rfl
      rw [hids.fresh] at hsc
      cases hsc
  have hnew := addConnection_conns_self s fd ioLoop wc hw mark
  -- the descriptor is open nowhere else
  have hfresh : ∀ c sc, c ≠ s.nextConnId → s.conns c = some sc →
      (s.addConnection fd ioLoop wc hw mark).Held c → sc.tcp.channel.fd ≠ fd := by
    intro c sc hne hsc hheld hfd
    rcases (addConnection_held hids fd ioLoop wc hw mark c).mp hheld with hheld | heq
    · exact hopen ⟨c, (hids.conn c sc hsc).1, ⟨sc, hsc, hfd⟩, hheld⟩
    · exact hne heq
  refine
    { ids := addConnection_ids hids hcounter fd ioLoop wc hw mark
      idle := h.sane.idle
      away := ?_
      fds := ?_
      queued := ?_
      active := ?_
      pollers := ?_ }
  · intro hdestroying
    have halive : (s.addConnection fd ioLoop wc hw mark).lifetime = .alive := hlife
    rw [halive] at hdestroying
    cases hdestroying
  · intro c c' sc sc' hsc hsc' hheld hheld' hfd
    by_cases hc : c = s.nextConnId
    · by_cases hc' : c' = s.nextConnId
      · exact hc.trans hc'.symm
      · subst hc
        rw [hnew] at hsc
        obtain rfl := Option.some.inj hsc
        rw [addConnection_conns_ne hc'] at hsc'
        exact absurd hfd.symm (hfresh c' sc' hc' hsc' hheld')
    · rw [addConnection_conns_ne hc] at hsc
      by_cases hc' : c' = s.nextConnId
      · subst hc'
        rw [hnew] at hsc'
        obtain rfl := Option.some.inj hsc'
        exact absurd hfd (hfresh c sc hc hsc hheld)
      · rw [addConnection_conns_ne hc'] at hsc'
        have hold := (addConnection_held hids fd ioLoop wc hw mark c).mp hheld
        have hold' := (addConnection_held hids fd ioLoop wc hw mark c').mp hheld'
        exact h.sane.fds c c' sc sc' hsc hsc' (hold.resolve_right hc) (hold'.resolve_right hc') hfd
  · intro ℓ f hf
    rcases h.sane.queued ℓ f hf with hg | ⟨hsend, sc, hsc, hloop⟩
    · exact Or.inl hg
    · exact Or.inr ⟨hsend, sc, hkeep _ sc hsc, hloop⟩
  · intro ℓ c hc
    obtain ⟨sc, hsc, hin⟩ := h.sane.active ℓ c hc
    exact ⟨sc, hkeep c sc hsc, hin⟩
  · intro ℓ hrun
    refine (h.sane.pollers ℓ hrun).mono rfl (fun c sc hsc _ => hkeep c sc hsc) ?_
    intro c sc hsc _ hindex
    by_cases hc : c = s.nextConnId
    · subst hc
      rw [hnew] at hsc
      obtain rfl := Option.some.inj hsc
      exact absurd rfl hindex
    · rwa [addConnection_conns_ne hc] at hsc

theorem addConnection_alive {s : Server k} (h : s.Inv) (fd : Nat) (ioLoop : Fin (k + 1))
    (wc hw : Bool) (mark : Nat) : (s.addConnection fd ioLoop wc hw mark).Alive := by
  intro ℓ c hrun ⟨sc, hsc, hloop, hindex⟩
  by_cases hc : c = s.nextConnId
  · subst hc
    rw [addConnection_conns_self] at hsc
    obtain rfl := Option.some.inj hsc
    exact absurd rfl hindex
  · rw [addConnection_conns_ne hc] at hsc
    have hheld := h.alive ℓ c hrun ⟨sc, hsc, hloop, hindex⟩
    exact (addConnection_held h.sane.ids fd ioLoop wc hw mark c).mpr (Or.inl hheld)

/-- The other connections are in their stages. -/
theorem addConnection_stage {s : Server k} (h : s.Inv) (fd : Nat) (ioLoop : Fin (k + 1))
    (wc hw : Bool) (mark : Nat) {c : ConnId} {sc : ServerConn k} (hc : c ≠ s.nextConnId)
    (hconn : (s.addConnection fd ioLoop wc hw mark).conns c = some sc)
    (hrun : s.Running sc.loop) : (s.addConnection fd ioLoop wc hw mark).Stage c sc := by
  rw [addConnection_conns_ne hc] at hconn
  refine (h.staged c sc hconn hrun).of_life_eq rfl ?_
  intro hmap
  exact Or.inl (addConnection_owns_map h.sane.ids fd ioLoop wc hw mark hmap)

/-- Nothing waits for a connection that has not been created. -/
theorem life_fresh {s : Server k} (h : s.Inv) (ℓ : Fin (k + 1)) :
    (s.loops ℓ).life s.nextConnId = [] := by
  rw [List.eq_nil_iff_forall_not_mem]
  intro g hg
  obtain ⟨hmem, hlife⟩ := mem_life.mp hg
  rcases h.sane.queued ℓ _ hmem with hremove | ⟨_, sc, hsc, _⟩
  · have hremove' : g = .removeConnectionInLoop := hremove
    rw [hremove'] at hlife
    simp at hlife
  · rw [h.sane.ids.fresh] at hsc
    cases hsc

theorem accept_inv {s : Server k} (h : s.Inv) {fd : Nat} (hcan : s.CanAccept fd)
    (ioLoop : Fin (k + 1)) (wc hw : Bool) (mark : Nat) (us : List UserCall) :
    (s.newConnection fd ioLoop wc hw mark us).Inv := by
  have hsane := addConnection_sane h hcan ioLoop wc hw mark
  have halive := addConnection_alive h fd ioLoop wc hw mark
  have hnew := addConnection_conns_self s fd ioLoop wc hw mark
  have hmap := addConnection_owns_new s fd ioLoop wc hw mark
  unfold newConnection
  split
  · rename_i hbase
    refine connectEstablished_inv hsane halive hnew ⟨.map, hmap⟩ ?_ ?_ (Or.inl hmap) us
    · intro d sd hd hsd hrun
      exact addConnection_stage h fd ioLoop wc hw mark hd hsd hrun
    · have hnil : ((s.addConnection fd ioLoop wc hw mark).loops ioLoop).life s.nextConnId = [] :=
        life_fresh h ioLoop
      rw [hnil]
      simp
  · rename_i hbase
    have hpass := queueInLoop_passes_of_held ⟨.map, hmap⟩ ioLoop .connectEstablished
    constructor
    · refine hsane.setLoop hpass.toKeeps rfl ?_ (hsane.active ioLoop) id ?_
      · intro f hf
        rcases List.mem_append.mp hf with hf | hf
        · exact Or.inl (List.mem_append_left _ hf)
        · rcases List.mem_append.mp hf with hf | hf
          · exact Or.inl (List.mem_append_right _ hf)
          · rw [List.mem_singleton.mp hf]
            exact Or.inr (Or.inr ⟨by simp, _, hnew, rfl⟩)
      · intro hzero
        exact absurd hzero hbase
    · intro d sd hsd hrun
      rw [Running, queueInLoop_phase] at hrun
      by_cases hd : d = s.nextConnId
      · subst hd
        have heq : some sd = some _ := hsd.symm.trans hnew
        obtain rfl := Option.some.inj heq
        refine .connecting [] rfl rfl hbase ?_ (by simp) (Or.inl hmap)
        have hnil : ((s.addConnection fd ioLoop wc hw mark).loops ioLoop).life s.nextConnId = [] :=
          life_fresh h ioLoop
        rw [life_queueInLoop, hnil]
        simp [BoundFunctor.IsLife]
      · have hstage := addConnection_stage h fd ioLoop wc hw mark hd hsd hrun
        refine hstage.mono life_queueInLoop ?_ Or.inl
        have hother : ¬ BoundFunctor.IsLife d ⟨s.nextConnId, .connectEstablished⟩ :=
          fun hlife => hd hlife.1.symm
        simp [hother]

/-! ## The destructor -/

/-- A connection of the base loop, destroyed on the spot, can leave the table. -/
theorem eraseConnection_inv {s : Server k} (h : s.Inv) {c : ConnId} {sc : ServerConn k}
    (hconn : s.conns c = some sc)
    (hgone : s.Running sc.loop → sc.tcp.state ≠ .kConnecting ∧ sc.tcp.channel.index = .new) :
    (s.eraseConnection sc.name).Inv where
  sane :=
    h.sane.of_frame
      { names := rfl
        counter := rfl
        conn := fun d sd hd => ⟨sd, hd, SameConn.refl sd⟩
        created := fun d sd hd => ⟨sd, hd⟩
        table := fun p hp => List.mem_of_mem_filter hp
        held := fun d hd => held_of_eraseConnection hd }
      rfl rfl h.sane.away (fun _ _ => Or.inl) h.sane.active (fun _ => rfl) fun _ => id
  staged d sd hsd hrun := by
    have hstage := h.staged d sd hsd hrun
    by_cases hd : d = c
    · subst hd
      have heq : sd = sc := Option.some.inj (hsd.symm.trans hconn)
      subst heq
      obtain ⟨hstate, hindex⟩ := hgone hrun
      cases hstage with
      | connecting rest hs => exact absurd hs hstate
      | up hs hi => exact absurd hindex hi
      | gone hs hconnected hi hlife => exact .gone hs hconnected hi hlife
    · refine hstage.of_life_eq rfl ?_
      rintro ⟨p, hp, rfl⟩
      have hname : p.1 ≠ sc.name := fun hname => hd (h.sane.ids.unique hconn hp hname)
      exact Or.inl ⟨p, List.mem_filter.mpr ⟨hp, by simpa using hname⟩, rfl⟩

theorem destroyConnection_inv {s : Server k} (h : s.Inv) {name : List Char} {c : ConnId}
    {sc : ServerConn k} (hlife : s.lifetime = .destroying)
    (hlookup : s.connections.lookup name = some c) (hconn : s.conns c = some sc)
    (us : List UserCall) : (s.destroyConnection name c sc us).Inv := by
  have hheld : s.Held c := ⟨.map, (name, c), mem_of_lookup hlookup, rfl⟩
  rw [h.sane.ids.name_of_lookup hconn hlookup]
  unfold destroyConnection
  split
  · rename_i hbase
    have hinactive : ∀ ℓ, c ∉ (s.loops ℓ).phase.channels := by
      intro ℓ hc
      obtain ⟨sd, hsd, hloop, _⟩ := h.sane.active ℓ c hc
      have heq : sd = sc := Option.some.inj (hsd.symm.trans hconn)
      have haway := h.sane.away hlife
      rw [heq, hbase] at hloop
      rw [← hloop] at hc
      cases hphase : (s.loops 0).phase <;>
        simp [hphase, Phase.channels, Phase.inHandlers] at hc haway
    have hself : s.Running sc.loop → sc.tcp.state ≠ .kConnecting ∧
        .connectEstablished ∉ (s.loops sc.loop).life c := by
      intro hrun
      cases h.staged c sc hconn hrun with
      | connecting rest hs hi hloop => exact absurd hbase hloop
      | up hs hi hlife => exact ⟨hs, hlife⟩
      | gone hs hconnected hi hlife => exact ⟨hs, hlife⟩
    have hdestroyed := connectDestroyed_inv h.sane h.alive hconn hheld
      (fun d sd _ hsd hrun => h.staged d sd hsd hrun) hinactive hself us
    have hconn' := onConn_conns_self hconn (·.connectDestroyed us)
    -- nothing of it is replayed, so it may leave the table first or last
    have hcomm : (s.eraseConnection sc.name).onConn c (·.connectDestroyed us) =
        (s.onConn c (·.connectDestroyed us)).eraseConnection sc.name := by
      rw [onConn_connectDestroyed (s := s.eraseConnection sc.name) hconn us,
        onConn_connectDestroyed hconn us]
      rfl
    have herased := eraseConnection_inv hdestroyed hconn' (by
      intro hrun
      rw [Running, onConn_phase] at hrun
      exact ⟨(Conn.connectDestroyed_state (hself hrun).1 us).2, Conn.connectDestroyed_index _ us⟩)
    rw [hcomm]
    exact herased
  · have heq : (s.eraseConnection sc.name).queueInLoop sc.loop ⟨c, .connectDestroyed⟩ =
        s.removeConnectionInLoop c := by
      simp [removeConnectionInLoop, hconn]
    rw [heq]
    exact removeConnectionInLoop_inv h hheld

/-! ## Every run -/

/-- `send` and `shutdown` are called in the loops of their connections only, and
`~TcpServer` is not entered from inside a handler. -/
def OwnThread (s : Server k) : Label k → Prop
  | .send _ _ _ => False
  | .sendQueue _ => False
  | .shutdown _ _ => False
  | .shutdownStore _ => False
  | .shutdownQueue _ => False
  | .dtor => (s.loops baseLoop).phase.inHandlers = false
  | _ => True

instance (s : Server k) (e : Label k) : Decidable (s.OwnThread e) := by
  cases e <;> unfold OwnThread <;> infer_instance

/-- Connections, loops and table are as before. -/
theorem Inv.of_same {s s' : Server k} (h : s.Inv) (hkeeps : Keeps s s')
    (hconns : s'.conns = s.conns) (hloops : s'.loops = s.loops) (hcalls : s'.calls = s.calls)
    (htable : s'.connections = s.connections)
    (haway : s'.lifetime = .destroying → (s.loops 0).phase.inHandlers = false) : s'.Inv where
  sane := by
    refine h.sane.of_frame hkeeps hconns hcalls ?_ ?_ ?_ ?_ ?_
    · rw [hloops]
      exact haway
    · intro ℓ f hf
      rw [hloops] at hf
      exact Or.inl hf
    · rw [hloops]
      exact h.sane.active
    · intro ℓ
      rw [hloops]
    · intro ℓ hℓ
      rwa [Running, hloops] at hℓ
  staged := by
    refine h.staged.of_frame hconns ?_ htable ?_
    · intro ℓ _ c
      rw [hloops]
    · intro ℓ hℓ
      rwa [Running, hloops] at hℓ

theorem destroyLoop_inv {s : Server k} (h : s.Inv) {ℓ : Fin (k + 1)}
    (hphase : (s.loops ℓ).phase = .exited)
    (hkeeps : Keeps s (s.setLoop ℓ { s.loops ℓ with pending := [] })) :
    (s.setLoop ℓ { s.loops ℓ with pending := [] }).Inv := by
  have hne : ∀ ℓ', (s.setLoop ℓ { s.loops ℓ with pending := [] }).Running ℓ' → ℓ' ≠ ℓ := by
    rintro ℓ' hrun rfl
    rw [Running, setLoop_loops_self] at hrun
    exact hrun hphase
  constructor
  · refine h.sane.setLoop hkeeps rfl ?_ (h.sane.active ℓ) id ?_
    · intro f hf
      exact Or.inl (List.mem_append_left _ (by simpa [ServerLoop.queue] using hf))
    · intro _ _
      simp [hphase, Phase.inHandlers]
  · refine h.staged.of_frame rfl ?_ rfl ?_
    · intro ℓ' hrun c
      rw [setLoop_loops_ne s _ (hne ℓ' hrun)]
    · intro ℓ' hrun
      have hℓ := hne ℓ' hrun
      rwa [Running, setLoop_loops_ne s _ hℓ] at hrun

theorem Step.inv {s s' : Server k} (h : s.Inv) {e : Label k} (hown : s.OwnThread e)
    (hstep : Step s e s') : s'.Inv := by
  have houtcome := hstep.outcome h.sane.ids
  cases hstep with
  | loop ℓ e hfree hloop => exact LoopStep.inv h hfree hloop
  | accept fd ioLoop wc hw mark us hcan => exact accept_inv h hcan ioLoop wc hw mark us
  | destroyLoop ℓ hphase => exact destroyLoop_inv h hphase (houtcome (by simp)).toKeeps
  | dtor hlife => exact h.of_same (houtcome (by simp)).toKeeps rfl rfl rfl rfl fun _ => hown
  | destroyConn name us c sc hlife hlookup hconn =>
    exact destroyConnection_inv h hlife hlookup hconn us
  | dtorEnd hlife hempty =>
    exact h.of_same (houtcome (by simp)).toKeeps rfl rfl rfl rfl fun hdestroying => by
      cases hdestroying
  | hold tid c hheld => exact h.of_same (houtcome (by simp)).toKeeps rfl rfl rfl rfl h.sane.away
  | drop tid c hidle => exact h.of_same (houtcome (by simp)).toKeeps rfl rfl rfl rfl h.sane.away
  | send tid c buf hidle huser hstate => exact hown.elim
  | sendQueue tid c buf hcall => exact hown.elim
  | shutdown tid c hidle huser hstate => exact hown.elim
  | shutdownStore tid c hcall => exact hown.elim
  | shutdownQueue tid c hcall => exact hown.elim

theorem Inv.step {s : Server k} (h : s.Inv) (e : Label k) (hown : s.OwnThread e) :
    (s.step e).Inv := by
  apply covers.elim h
  intro s' hstep
  exact hstep.inv h hown

theorem init_inv (k : Nat) (name : List Char) (listenAddr : InetAddress) :
    (init k name listenAddr).Inv where
  sane :=
    { ids := init_ids k name listenAddr
      idle := fun _ => rfl
      away := by simp [init]
      fds := by
        intro c c' sc sc' hc
        simp [init] at hc
      queued := by simp [init, ServerLoop.queue, Phase.rest]
      active := by simp [init, Phase.channels]
      pollers := by
        intro ℓ _
        constructor <;> simp [init, EPollPoller.new] }
  staged c sc hc := by simp [init] at hc

/-- The connections of the active channels whose handlers have not been called
exist. -/
def EventsOwned (s : Server k) : Prop :=
  ∀ ℓ, ∀ p ∈ (s.loops ℓ).phase.active, s.Held p.1

/-- An established connection that has been destroyed is in neither map of its
loop's poller, if the loop runs. -/
def DestroyedForgotten (s : Server k) : Prop :=
  ∀ c sc, s.conns c = some sc → sc.tcp.state ≠ .kConnecting → s.Running sc.loop → ¬ s.Held c →
    ∀ fd, (s.loops sc.loop).poller.channels fd ≠ some c ∧
      ∀ r, (s.loops sc.loop).poller.epoll fd = some r → r.ptr ≠ c

theorem Inv.eventsOwned {s : Server k} (h : s.Inv) : s.EventsOwned := by
  intro ℓ p hp
  have hin : p.1 ∈ (s.loops ℓ).phase.channels := by
    cases hphase : (s.loops ℓ).phase with
    | handlers active =>
      rw [hphase] at hp
      exact List.mem_map_of_mem hp
    | handling guard rest active =>
      rw [hphase] at hp
      exact List.mem_cons_of_mem _ (List.mem_map_of_mem hp)
    | _ => simp [hphase, Phase.active] at hp
  refine h.alive ℓ p.1 ?_ (h.sane.active ℓ p.1 hin)
  intro hexited
  simp [hexited, Phase.active] at hp

theorem Inv.destroyedForgotten {s : Server k} (h : s.Inv) : s.DestroyedForgotten := by
  intro c sc hsc _ hrun hdead fd
  have hok := h.sane.pollers sc.loop hrun
  constructor
  · intro hentry
    obtain ⟨sd, hsd, hloop, _, hindex⟩ := hok.channels fd c hentry
    exact hdead (h.alive _ c hrun ⟨sd, hsd, hloop, hindex⟩)
  · rintro r hentry rfl
    obtain ⟨sd, hsd, hloop, _, hindex⟩ := hok.epoll fd r hentry
    exact hdead (h.alive _ _ hrun ⟨sd, hsd, hloop, by simp [hindex]⟩)

/-- In every state of a run in which connections are called from their own loops
and `~TcpServer` is not entered from inside a handler. -/
theorem channels_outlive_events (name : List Char) (listenAddr : InetAddress)
    (es : List (Label k)) (h : EachStep step (init k name listenAddr) OwnThread es) :
    Always step (init k name listenAddr) (fun s => s.EventsOwned ∧ s.DestroyedForgotten) es :=
  (always_of_eachStep (init_inv k name listenAddr) (fun _ e hs hown => hs.step e hown) h).mono
    fun _ hs => ⟨hs.eventsOwned, hs.destroyedForgotten⟩

/-- A connection from its `accept` to its end, after a hang-up. -/
theorem channels_outlive_events_hangup :
    Always step (init 1 ['e'] ⟨fun _ => 0#8, 80#16⟩)
      (fun s => s.EventsOwned ∧ s.DestroyedForgotten)
      [.loop 0 (.poll []), .accept 5 1 false false 0 [], .loop 0 .startFunctors,
        .loop 0 .endFunctors, .loop 1 (.poll []), .loop 1 .startFunctors,
        .loop 1 (.functor (fun _ => 0) quiet), .loop 1 .endFunctors,
        .loop 1 (.poll [(5, EPOLLHUP)]), .loop 1 .handle, .loop 1 (.part quiet), .loop 1 .handled,
        .loop 0 (.poll []), .loop 0 .startFunctors, .loop 0 (.functor (fun _ => 0) quiet),
        .loop 0 .endFunctors, .loop 1 .startFunctors, .loop 1 (.functor (fun _ => 0) quiet),
        .loop 1 .endFunctors] :=
  channels_outlive_events ['e'] ⟨fun _ => 0#8, 80#16⟩ _ (by decide)

end Server

end EchoServer
