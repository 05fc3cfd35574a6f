import EchoServer.ChannelLifetime
import EchoServer.ConnectionTable
import EchoServer.Interest

/-!
# Descriptors, connections and pollers

The invariant `Inv` already ties what the pollers list to connections that
exist (`descriptors_tracked`). `Tended` adds what the way from `handleClose` to
the destructor rests on: a closed connection that is still in the table has its
`removeConnectionInLoop` waiting in the base loop, and one whose
`connectDestroyed` waits has left the table. So once nothing waits any more, the
connections that exist are those of the table, all of them are up, and of
connections the kernel watches their descriptors and no others (`settled_at_rest`).
-/

namespace EchoServer

open Runs Trace

/-! ## How a connection gets closed -/

theorem EPollPoller.setEvents_deleted (p : EPollPoller) (ch : Channel) (e : EventMask)
    (h : (p.setEvents ch e).2.index = .deleted) :
    (p.setEvents ch e).2.events = Channel.noneEvent := by
  rw [setEvents_events]
  unfold setEvents updateChannel at h
  split at h
  · cases h
  · cases h
  · rename_i hadded
    split at h
    · rename_i hnone
      have hevents : e = Channel.noneEvent := by simpa [Channel.isNoneEvent] using hnone
      exact hevents
    · have hstill : Index.added = .deleted := hadded.symm.trans h
      cases hstill

namespace Conn

/-- User code does not close a connection. -/
theorem userCall_closed {c : Conn} {u : UserCall}
    (h : (c.userCall u).tcp.state = .kDisconnected) : c.tcp.state = .kDisconnected := by
  by_cases hstate : c.tcp.state = .kConnected
  · cases u with
    | send data w =>
      simp only [userCall, send, if_pos hstate, sendInLoop_state] at h
      exact h
    | shutdown => simp [userCall, shutdown, hstate] at h
    | retrieve | retrieveAll | retrieveAllAsString => exact h
  · rw [(userCall_onlyConsumes hstate u).state] at h
    exact h

theorem userCalls_closed {c : Conn} {us : List UserCall}
    (h : (c.userCalls us).tcp.state = .kDisconnected) : c.tcp.state = .kDisconnected := by
  induction us generalizing c with
  | nil => exact h
  | cons u us ih => exact userCall_closed (ih h)

/-- A handler that closes the connection calls `closeCallback_`. -/
theorem runPart_closed {c : Conn} {p : Part} {a : Answers}
    (h : (c.runPart p a).tcp.state = .kDisconnected) :
    c.tcp.state = .kDisconnected ∨ .closeCallback ∈ (c.runPart p a).trace := by
  have hclose : ∀ d : Conn, .closeCallback ∈ (d.handleClose a.onConnection).trace := by
    intro d
    simp [handleClose]
  cases p with
  | close => exact Or.inr (hclose c)
  | error =>
    obtain ⟨e, he⟩ := handleError_eq c a.sockOpt a.onConnection
    rw [runPart, he]
    exact Or.inr (hclose _)
  | read =>
    rw [runPart] at h ⊢
    rcases handleRead_cases c a with ⟨chunk, hread⟩ | ⟨chunk, hread⟩ | ⟨e, hread⟩
    · rw [hread] at h
      exact Or.inl (userCalls_closed (c := (c.readInput chunk).emit .messageCallback) h)
    · rw [hread]
      exact Or.inr (hclose _)
    · rw [hread]
      exact Or.inr (hclose _)
  | write =>
    rw [runPart, handleWrite_state] at h
    exact Or.inl h

theorem connectEstablished_open (c : Conn) (us : List UserCall) :
    (c.connectEstablished us).tcp.state ≠ .kDisconnected := by
  intro hclosed
  have hup : (((c.setState .kConnected).enableReading).emit
      (.connectionCallback true)).tcp.state = .kDisconnected := userCalls_closed hclosed
  cases hup

/-- A channel is `Deleted` only while it asks for nothing. -/
theorem Moves.deleted {c d : Conn} (h : Moves c d)
    (hc : c.tcp.channel.index = .deleted → c.tcp.channel.events = Channel.noneEvent) :
    d.tcp.channel.index = .deleted → d.tcp.channel.events = Channel.noneEvent := by
  induction h with
  | refl => exact hc
  | emit _ _ ih => exact ih
  | setEvents events _ _ => exact EPollPoller.setEvents_deleted _ _ _
  | setInputBuffer _ _ ih => exact ih
  | setOutputBuffer _ _ ih => exact ih
  | disconnecting _ ih => exact ih
  | queueShutdown _ _ ih => exact ih
  | notifyDown _ _ => exact EPollPoller.setEvents_deleted _ _ _

theorem connectEstablished_deleted (c : Conn) (us : List UserCall) :
    (c.connectEstablished us).tcp.channel.index = .deleted →
      (c.connectEstablished us).tcp.channel.events = Channel.noneEvent := by
  refine (userCalls_moves _ us).deleted ?_
  exact EPollPoller.setEvents_deleted _ _ _

end Conn

namespace Server

variable {k : Nat}

/-! ## What waits for a connection -/

/-- What holds of a connection besides its stage. -/
structure Tended (s : Server k) (c : ConnId) (sc : ServerConn k) : Prop where
  attentive : sc.tcp.Attentive
  deleted : sc.tcp.channel.index = .deleted → sc.tcp.channel.events = Channel.noneEvent
  waiting : s.Owns c .map → ∀ ℓ, ⟨c, .connectDestroyed⟩ ∉ (s.loops ℓ).queue
  present : s.Owns c .map → sc.tcp.state ≠ .kConnecting → sc.tcp.channel.index ≠ .new
  closed : s.Owns c .map → s.Running baseLoop → sc.tcp.state = .kDisconnected →
    ⟨c, .removeConnectionInLoop⟩ ∈ (s.loops baseLoop).queue

def AllTended (s : Server k) : Prop := ∀ c sc, s.conns c = some sc → s.Tended c sc

/-- Once it is out of the table nothing more is asked. -/
theorem Tended.of_erased {s : Server k} {c : ConnId} {sc : ServerConn k}
    (hattentive : sc.tcp.Attentive)
    (hdeleted : sc.tcp.channel.index = .deleted → sc.tcp.channel.events = Channel.noneEvent)
    (herased : ¬ s.Owns c .map) : s.Tended c sc where
  attentive := hattentive
  deleted := hdeleted
  waiting hmap := absurd hmap herased
  present hmap := absurd hmap herased
  closed hmap := absurd hmap herased

/-- A step that is not about the connection. -/
theorem Tended.mono {s s' : Server k} {c : ConnId} {sc : ServerConn k} (h : s.Tended c sc)
    (hmap : s'.Owns c .map → s.Owns c .map)
    (hqueue : ∀ ℓ, ⟨c, .connectDestroyed⟩ ∈ (s'.loops ℓ).queue →
      ⟨c, .connectDestroyed⟩ ∈ (s.loops ℓ).queue)
    (hrun : s'.Running baseLoop → s.Running baseLoop)
    (hbase : s'.Running baseLoop → ⟨c, .removeConnectionInLoop⟩ ∈ (s.loops baseLoop).queue →
      ⟨c, .removeConnectionInLoop⟩ ∈ (s'.loops baseLoop).queue) : s'.Tended c sc where
  attentive := h.attentive
  deleted := h.deleted
  waiting hin ℓ hmem := h.waiting (hmap hin) ℓ (hqueue ℓ hmem)
  present hin := h.present (hmap hin)
  closed hin hbaseRun hstate := hbase hbaseRun (h.closed (hmap hin) (hrun hbaseRun) hstate)

theorem AllTended.of_same {s s' : Server k} (h : s.AllTended) (hconns : s'.conns = s.conns)
    (hloops : s'.loops = s.loops) (htable : s'.connections = s.connections) : s'.AllTended := by
  intro c sc hsc
  rw [hconns] at hsc
  refine (h c sc hsc).mono ?_ ?_ ?_ ?_
  · rintro ⟨p, hp, rfl⟩
    exact ⟨p, by rwa [← htable], rfl⟩
  · intro ℓ hmem
    rwa [hloops] at hmem
  · intro hrun
    rwa [Running, hloops] at hrun
  · intro _ hmem
    rwa [hloops]

/-- The loop moves on, with the same functors to come. -/
theorem AllTended.setLoop {s : Server k} (h : s.AllTended) {ℓ : Fin (k + 1)} {l : ServerLoop}
    (hqueue : l.queue = (s.loops ℓ).queue) (hrun : s.Running ℓ) : (s.setLoop ℓ l).AllTended := by
  have hsame : ∀ ℓ', ((s.setLoop ℓ l).loops ℓ').queue = (s.loops ℓ').queue := by
    intro ℓ'
    by_cases hℓ : ℓ' = ℓ
    · rw [hℓ, setLoop_loops_self, hqueue]
    · rw [setLoop_loops_ne s l hℓ]
  intro c sc hsc
  refine (h c sc hsc).mono id ?_ ?_ ?_
  · intro ℓ' hmem
    rwa [hsame] at hmem
  · intro hbase
    by_cases hℓ : baseLoop = ℓ
    · rw [hℓ]
      exact hrun
    · rwa [Running, setLoop_loops_ne s l hℓ] at hbase
  · intro _ hmem
    rwa [hsame]

/-! ## Replaying -/

theorem mem_queueInLoop {s : Server k} {ℓ ℓ' : Fin (k + 1)} {f g : BoundFunctor} :
    g ∈ ((s.queueInLoop ℓ f).loops ℓ').pending ↔
      g ∈ (s.loops ℓ').pending ∨ ℓ' = ℓ ∧ g = f := by
  by_cases hℓ : ℓ' = ℓ
  · subst hℓ
    simp [queueInLoop]
  · rw [queueInLoop, setLoop_loops_ne s _ hℓ]
    simp [hℓ]

/-- Only `removeConnectionInLoop`, when it is run at once, queues a
`connectDestroyed`. -/
theorem replay_destroyed {s : Server k} {c : ConnId} {ℓ₀ : Fin (k + 1)} {e : Effect}
    (hdestroyed : e ≠ .queueInLoop .connectDestroyed)
    (hremove : ℓ₀ = baseLoop → e ≠ .closeCallback) {ℓ : Fin (k + 1)}
    (h : ⟨c, .connectDestroyed⟩ ∈ ((replay c ℓ₀ s e).loops ℓ).pending) :
    ⟨c, .connectDestroyed⟩ ∈ (s.loops ℓ).pending := by
  cases e with
  | queueInLoop f =>
    rcases mem_queueInLoop.mp h with hold | ⟨_, hnew⟩
    · exact hold
    · have hf : Functor.connectDestroyed = f := congrArg BoundFunctor.functor hnew
      exact absurd (by rw [hf]) hdestroyed
  | closeCallback =>
    simp only [replay, removeConnection] at h
    split at h
    · rename_i hbase
      exact absurd rfl (hremove hbase)
    · rcases mem_queueInLoop.mp h with hold | ⟨_, hnew⟩
      · exact hold
      · cases congrArg BoundFunctor.functor hnew
  | _ => exact h

theorem replays_destroyed {c : ConnId} {ℓ₀ : Fin (k + 1)} {es : List Effect} {s : Server k}
    (hdestroyed : .queueInLoop .connectDestroyed ∉ es)
    (hremove : ℓ₀ = baseLoop → .closeCallback ∉ es) {ℓ : Fin (k + 1)}
    (h : ⟨c, .connectDestroyed⟩ ∈ ((es.foldl (replay c ℓ₀) s).loops ℓ).pending) :
    ⟨c, .connectDestroyed⟩ ∈ (s.loops ℓ).pending := by
  induction es generalizing s with
  | nil => exact h
  | cons e es ih =>
    have hrest : ⟨c, .connectDestroyed⟩ ∈ ((replay c ℓ₀ s e).loops ℓ).pending := by
      refine ih ?_ ?_ h
      · intro hmem
        exact hdestroyed (List.mem_cons_of_mem _ hmem)
      · intro hbase hmem
        exact hremove hbase (List.mem_cons_of_mem _ hmem)
    refine replay_destroyed ?_ ?_ hrest
    · rintro rfl
      exact hdestroyed List.mem_cons_self
    · rintro hbase rfl
      exact hremove hbase List.mem_cons_self

theorem replays_keep {c : ConnId} {sc : ServerConn k} {ℓ₀ : Fin (k + 1)} {es : List Effect}
    {s : Server k} (hconn : s.conns c = some sc) (hloop : sc.loop = ℓ₀) {ℓ : Fin (k + 1)}
    {f : BoundFunctor} (h : f ∈ (s.loops ℓ).pending) :
    f ∈ ((es.foldl (replay c ℓ₀) s).loops ℓ).pending := by
  induction es generalizing s with
  | nil => exact h
  | cons e es ih =>
    have hreplay : Replayed c ℓ₀ [e] s (replay c ℓ₀ s e) :=
      replay_replayed hconn hloop List.mem_cons_self
    have hconn' : (replay c ℓ₀ s e).conns c = some sc := by rw [hreplay.conns, hconn]
    exact ih hconn' ((hreplay.pending ℓ).mem_of_mem h)

/-- `closeCallback_` in another loop leaves a `removeConnectionInLoop` in the base
loop. -/
theorem replays_remove {c : ConnId} {sc : ServerConn k} {ℓ₀ : Fin (k + 1)} {es : List Effect}
    {s : Server k} (hconn : s.conns c = some sc) (hloop : sc.loop = ℓ₀) (hbase : ℓ₀ ≠ baseLoop)
    (hclose : .closeCallback ∈ es) :
    ⟨c, .removeConnectionInLoop⟩ ∈ ((es.foldl (replay c ℓ₀) s).loops baseLoop).pending := by
  induction es generalizing s with
  | nil => cases hclose
  | cons e es ih =>
    have hreplay : Replayed c ℓ₀ [e] s (replay c ℓ₀ s e) :=
      replay_replayed hconn hloop List.mem_cons_self
    have hconn' : (replay c ℓ₀ s e).conns c = some sc := by rw [hreplay.conns, hconn]
    rcases List.mem_cons.mp hclose with rfl | hlater
    · have hqueued : ⟨c, .removeConnectionInLoop⟩ ∈
          ((replay c ℓ₀ s .closeCallback).loops baseLoop).pending := by
        simp only [replay, removeConnection, if_neg hbase]
        exact mem_queueInLoop.mpr (Or.inr ⟨rfl, rfl⟩)
      exact replays_keep hconn' hloop hqueued
    · exact ih hconn' hlater

/-! ## One operation -/

/-- An operation of connection `c`, by what it makes of `c`. -/
theorem onConn_tended {s : Server k} (hs : s.Ids) {c : ConnId} {sc : ServerConn k}
    (hconn : s.conns c = some sc) {op : Conn → Conn}
    (hqueued : ∀ f, .queueInLoop f ∈ (op (s.assemble sc)).trace → f.OwnThread)
    (hothers : ∀ d sd, d ≠ c → s.conns d = some sd → s.Tended d sd)
    (hattentive : (op (s.assemble sc)).tcp.Attentive)
    (hdeleted : (op (s.assemble sc)).tcp.channel.index = .deleted →
      (op (s.assemble sc)).tcp.channel.events = Channel.noneEvent)
    (hwaiting : s.Owns c .map → ∀ ℓ, ⟨c, .connectDestroyed⟩ ∉ (s.loops ℓ).queue)
    (hpresent : s.Owns c .map → (op (s.assemble sc)).tcp.state ≠ .kConnecting →
      (op (s.assemble sc)).tcp.channel.index ≠ .new)
    (hclosed : s.Owns c .map → s.Running baseLoop →
      (op (s.assemble sc)).tcp.state = .kDisconnected →
        ⟨c, .removeConnectionInLoop⟩ ∈ (s.loops baseLoop).queue ∨
          .closeCallback ∈ (op (s.assemble sc)).trace) : (s.onConn c op).AllTended := by
  have hreplay := onConn_cases hconn op
  have hpending : ∀ ℓ, Extends (QueuedBy c sc.loop (op (s.assemble sc)).trace ℓ)
      (s.loops ℓ).pending ((s.onConn c op).loops ℓ).pending := by
    intro ℓ
    have hext := hreplay.pending ℓ
    rwa [store_pending] at hext
  have hkeep : ∀ ℓ f, f ∈ (s.loops ℓ).queue → f ∈ ((s.onConn c op).loops ℓ).queue := by
    intro ℓ f hf
    rcases List.mem_append.mp hf with hf | hf
    · refine List.mem_append_left _ ?_
      rwa [onConn_phase]
    · exact List.mem_append_right _ ((hpending ℓ).mem_of_mem hf)
  have htable := onConn_connections hs c op
  intro d sd hsd
  by_cases heq : d = c
  · subst heq
    rw [onConn_conns_self hconn op] at hsd
    obtain rfl := Option.some.inj hsd
    by_cases hremoves : s.RemovesAtOnce d op
    · rw [if_pos hremoves] at htable
      refine .of_erased hattentive hdeleted ?_
      rintro ⟨p, hp, hpd⟩
      rw [htable] at hp
      simp [hpd] at hp
    · rw [if_neg hremoves] at htable
      have hmap : (s.onConn d op).Owns d .map → s.Owns d .map := by
        rintro ⟨p, hp, hpd⟩
        exact ⟨p, by rwa [← htable], hpd⟩
      have helsewhere : sc.loop = baseLoop → .closeCallback ∉ (op (s.assemble sc)).trace :=
        fun hbase hclose => hremoves ⟨sc, hconn, hbase, hclose⟩
      have hnone : .queueInLoop .connectDestroyed ∉ (op (s.assemble sc)).trace := by
        intro hmem
        rcases hqueued _ hmem with hcallback | hshutdown
        · exact hcallback
        · cases hshutdown
      have hstored := store_conns_self s d sc (op (s.assemble sc))
      refine
        { attentive := hattentive
          deleted := hdeleted
          waiting := ?_
          present := fun hin => hpresent (hmap hin)
          closed := ?_ }
      · intro hin ℓ hmem
        refine hwaiting (hmap hin) ℓ ?_
        rcases List.mem_append.mp hmem with hmem | hmem
        · rw [onConn_phase] at hmem
          exact List.mem_append_left _ hmem
        · refine List.mem_append_right _ ?_
          simp only [onConn, hconn] at hmem
          have hold := replays_destroyed hnone helsewhere hmem
          rwa [store_pending] at hold
      · intro hin hrun hstate
        rw [Running, onConn_phase] at hrun
        rcases hclosed (hmap hin) hrun hstate with hwaits | hclose
        · exact hkeep _ _ hwaits
        · refine List.mem_append_right _ ?_
          simp only [onConn, hconn]
          exact replays_remove hstored rfl (fun hbase => helsewhere hbase hclose) hclose
  · rw [onConn_conns_ne hconn op heq] at hsd
    refine (hothers d sd heq hsd).mono ?_ ?_ ?_ ?_
    · rintro ⟨p, hp, hpd⟩
      refine ⟨p, ?_, hpd⟩
      rw [htable] at hp
      split at hp
      · exact List.mem_of_mem_filter hp
      · exact hp
    · intro ℓ hmem
      rcases List.mem_append.mp hmem with hmem | hmem
      · rw [onConn_phase] at hmem
        exact List.mem_append_left _ hmem
      · rcases (hpending ℓ).mem_or hmem with hmem | ⟨hother, _⟩
        · exact List.mem_append_right _ hmem
        · exact absurd hother heq
    · intro hrun
      rwa [Running, onConn_phase] at hrun
    · intro _ hmem
      exact hkeep _ _ hmem

/-- `connectDestroyed`, of a connection that has left the table. -/
theorem destroyed_tended {s : Server k} (hs : s.Ids) {c : ConnId} {sc : ServerConn k}
    (hconn : s.conns c = some sc)
    (hothers : ∀ d sd, d ≠ c → s.conns d = some sd → s.Tended d sd) (htended : s.Tended c sc)
    (herased : ¬ s.Owns c .map) (us : List UserCall) :
    (s.onConn c (·.connectDestroyed us)).AllTended := by
  refine onConn_tended hs hconn ?_ hothers
    (Conn.connectDestroyed_attentive htended.attentive us) ?_ htended.waiting
    (fun hmap => absurd hmap herased) (fun hmap => absurd hmap herased)
  · intro f hf
    exact (Conn.connectDestroyed_queued hf).resolve_left (by simp [assemble])
  · intro hindex
    exact absurd (Conn.connectDestroyed_index (s.assemble sc) us) (by simp [hindex])

/-! ## The steps of a loop thread -/

theorem part_tended {s : Server k} (h : s.Inv) (ht : s.AllTended) {ℓ : Fin (k + 1)} {c : ConnId}
    {p : Conn.Part} {rest : List Conn.Part} {active : List (ConnId × EventMask)}
    (hphase : (s.loops ℓ).phase = .handling c (p :: rest) active) (a : Conn.Answers) :
    ((s.setPhase ℓ (.handling c rest active)).onConn c (·.runPart p a)).AllTended := by
  have hids : (s.setPhase ℓ (.handling c rest active)).Ids :=
    setPhase_ids h.sane.ids (by rw [hphase]; rfl) (by rw [hphase]; rfl)
  have hset : (s.setPhase ℓ (.handling c rest active)).AllTended := by
    refine ht.setLoop ?_ ?_
    · simp [ServerLoop.queue, hphase, Phase.rest]
    · simp [Running, hphase]
  obtain ⟨sc, hsc, _, hindex⟩ := h.sane.active ℓ c (by simp [hphase, Phase.channels])
  have htended := hset c sc hsc
  have hmoves := Conn.runPart_moves ((s.setPhase ℓ (.handling c rest active)).assemble sc) p a
  refine onConn_tended hids hsc ?_ (fun d sd _ hsd => hset d sd hsd)
    (Conn.runPart_attentive htended.attentive p a) (hmoves.deleted htended.deleted)
    htended.waiting (fun _ _ => hmoves.index hindex) ?_
  · intro f hf
    exact (hmoves.queued hf).resolve_left (by simp [assemble])
  · intro hin hrun hstate
    rcases Conn.runPart_closed hstate with hbefore | hclose
    · exact Or.inl (htended.closed hin hrun hbefore)
    · exact Or.inr hclose

theorem userCall_tended {s : Server k} (h : s.Inv) (ht : s.AllTended) {ℓ : Fin (k + 1)}
    {c : ConnId} (hlives : s.LivesIn c ℓ) (u : UserCall) :
    (s.onConn c (·.userCall u)).AllTended := by
  obtain ⟨_, sc, hsc, _⟩ := hlives
  have htended := ht c sc hsc
  have hmoves := Conn.userCall_moves (s.assemble sc) u
  refine onConn_tended h.sane.ids hsc ?_ (fun d sd _ hsd => ht d sd hsd)
    (Conn.userCall_attentive htended.attentive u) (hmoves.deleted htended.deleted)
    htended.waiting ?_ ?_
  · intro f hf
    exact (hmoves.queued hf).resolve_left (by simp [assemble])
  · intro hin hstate
    by_cases hconnected : sc.tcp.state = .kConnected
    · exact hmoves.index (htended.present hin (by simp [hconnected]))
    · -- the call does nothing to the channel
      have hsame := Conn.userCall_onlyConsumes (c := s.assemble sc) hconnected u
      rw [hsame.state] at hstate
      rw [hsame.channel]
      exact htended.present hin hstate
  · intro hin hrun hstate
    exact Or.inl (htended.closed hin hrun (Conn.userCall_closed hstate))

/-- All but a `removeConnectionInLoop` can do without the functor about to be
executed. -/
theorem tended_next {s : Server k} (ht : s.AllTended) {ℓ : Fin (k + 1)}
    {done rest : List BoundFunctor} {f : BoundFunctor}
    (hphase : (s.loops ℓ).phase = .functors done (f :: rest)) {c : ConnId} {sc : ServerConn k}
    (hconn : s.conns c = some sc) (hother : f ≠ ⟨c, .removeConnectionInLoop⟩) :
    (s.setPhase ℓ (.functors (done ++ [f]) rest)).Tended c sc := by
  have hqueue : (s.loops ℓ).queue =
      f :: ((s.setPhase ℓ (.functors (done ++ [f]) rest)).loops ℓ).queue := by
    simp [ServerLoop.queue, setPhase, hphase, Phase.rest]
  refine (ht c sc hconn).mono id ?_ ?_ ?_
  · intro ℓ' hmem
    by_cases hℓ : ℓ' = ℓ
    · rw [hℓ, hqueue]
      exact List.mem_cons_of_mem _ (by rwa [hℓ] at hmem)
    · rwa [setPhase, setLoop_loops_ne s _ hℓ] at hmem
  · exact running_next hphase
  · intro _ hmem
    by_cases hℓ : baseLoop = ℓ
    · rw [hℓ, hqueue] at hmem
      rw [hℓ]
      rcases List.mem_cons.mp hmem with heq | hmem
      · exact absurd heq.symm hother
      · exact hmem
    · rwa [setPhase, setLoop_loops_ne s _ hℓ]

/-- `removeConnectionInLoop` takes the connection out of the table before it
queues `connectDestroyed`. -/
theorem removeConnectionInLoop_tended {s : Server k} (hs : s.Ids) {c : ConnId} {sc : ServerConn k}
    (hconn : s.conns c = some sc)
    (hothers : ∀ d sd, d ≠ c → s.conns d = some sd → s.Tended d sd)
    (hattentive : sc.tcp.Attentive)
    (hdeleted : sc.tcp.channel.index = .deleted → sc.tcp.channel.events = Channel.noneEvent) :
    (s.removeConnectionInLoop c).AllTended := by
  have hreplay : Replayed c sc.loop [] s (s.removeConnectionInLoop c) :=
    removeConnectionInLoop_replayed hconn rfl
  have htable : (s.removeConnectionInLoop c).connections =
      s.connections.filter fun p => p.2 ≠ c := by
    rw [removeConnectionInLoop_connections hconn, hs.erase_name hconn]
  intro d sd hsd
  rw [hreplay.conns] at hsd
  by_cases heq : d = c
  · subst heq
    have hsame : sd = sc := Option.some.inj (hsd.symm.trans hconn)
    subst hsame
    refine .of_erased hattentive hdeleted ?_
    rintro ⟨p, hp, hpd⟩
    rw [htable] at hp
    simp [hpd] at hp
  · refine (hothers d sd heq hsd).mono ?_ ?_ ?_ ?_
    · rintro ⟨p, hp, hpd⟩
      rw [htable] at hp
      exact ⟨p, List.mem_of_mem_filter hp, hpd⟩
    · intro ℓ hmem
      rcases List.mem_append.mp hmem with hmem | hmem
      · rw [hreplay.phase] at hmem
        exact List.mem_append_left _ hmem
      · rcases (hreplay.pending ℓ).mem_or hmem with hmem | ⟨hother, _⟩
        · exact List.mem_append_right _ hmem
        · exact absurd hother heq
    · intro hrun
      rwa [Running, hreplay.phase] at hrun
    · intro _ hmem
      rcases List.mem_append.mp hmem with hmem | hmem
      · refine List.mem_append_left _ ?_
        rwa [hreplay.phase]
      · exact List.mem_append_right _ ((hreplay.pending _).mem_of_mem hmem)

/-- What is established next has not been established before. -/
theorem connecting_of_next {s : Server k} (h : s.Inv) {ℓ : Fin (k + 1)}
    {done rest : List BoundFunctor} {c : ConnId}
    (hphase : (s.loops ℓ).phase = .functors done (⟨c, .connectEstablished⟩ :: rest))
    {sc : ServerConn k} (hconn : s.conns c = some sc) (hloop : sc.loop = ℓ) :
    sc.tcp.state = .kConnecting := by
  subst hloop
  have hwaits : .connectEstablished ∈ (s.loops sc.loop).life c := by
    refine mem_life.mpr ⟨?_, Or.inl rfl⟩
    simp [ServerLoop.queue, hphase, Phase.rest]
  cases h.staged c sc hconn (by simp [Running, hphase]) with
  | connecting rest' hstate hindex hloop hlife honce hsecured => exact hstate
  | up hstate hindex hlife hsecured => exact absurd hwaits hlife
  | gone hstate hconnected hindex hlife => exact absurd hwaits hlife

theorem functor_tended {s : Server k} (h : s.Inv) (ht : s.AllTended) {ℓ : Fin (k + 1)}
    (hfree : s.LoopFree ℓ) {done rest : List BoundFunctor} {c : ConnId} {g : Functor}
    (hphase : (s.loops ℓ).phase = .functors done (⟨c, g⟩ :: rest)) (mem : Nat → Byte)
    (a : Conn.Answers) :
    ((s.setPhase ℓ (.functors (done ++ [⟨c, g⟩]) rest)).execute ⟨c, g⟩ mem a).AllTended := by
  have hids := (sane_next h hfree hphase).1.ids
  have hbatch : ∀ d, BoundFunctor.Owns ⟨c, g⟩ d →
      (s.setPhase ℓ (.functors (done ++ [⟨c, g⟩]) rest)).Held d := by
    intro d hd
    exact ⟨.batch ℓ, ⟨c, g⟩, by simp [setPhase, Phase.batch], hd⟩
  have hnext : ∀ d sd, s.conns d = some sd →
      (⟨c, g⟩ : BoundFunctor) ≠ ⟨d, .removeConnectionInLoop⟩ →
      (s.setPhase ℓ (.functors (done ++ [⟨c, g⟩]) rest)).Tended d sd :=
    fun d sd hsd hother => tended_next ht hphase hsd hother
  have hin : (⟨c, g⟩ : BoundFunctor) ∈ (s.loops ℓ).queue := by
    simp [ServerLoop.queue, hphase, Phase.rest]
  have hplaced := h.sane.queued ℓ ⟨c, g⟩ hin
  cases g with
  -- only another thread queues a `send`, and here none calls it
  | sendInLoop buf =>
    rcases hplaced with hg | ⟨hsend, _⟩
    · cases hg
    · exact absurd rfl (hsend buf)
  | shutdownInLoop =>
    obtain ⟨_, sc, hsc, _⟩ := hplaced.resolve_left (by simp)
    have hall : (s.setPhase ℓ (.functors (done ++ [⟨c, .shutdownInLoop⟩]) rest)).AllTended :=
      fun d sd hsd => hnext d sd hsd (by simp)
    have htended := hall c sc hsc
    unfold execute
    split
    · refine onConn_tended hids hsc ?_ (fun d sd _ hsd => hall d sd hsd) ?_ ?_ htended.waiting ?_ ?_
      · intro f hf
        exact ((Conn.shutdownInLoop_moves _).queued hf).resolve_left (by simp [assemble])
      · rw [Conn.shutdownInLoop_tcp]
        exact htended.attentive
      · rw [Conn.shutdownInLoop_tcp]
        exact htended.deleted
      · rw [Conn.shutdownInLoop_tcp]
        exact htended.present
      · rw [Conn.shutdownInLoop_tcp]
        intro hmap hrun hstate
        exact Or.inl (htended.closed hmap hrun hstate)
    · exact hall
  | connectEstablished =>
    obtain ⟨_, sc, hsc, hloop⟩ := hplaced.resolve_left (by simp)
    have hall : (s.setPhase ℓ (.functors (done ++ [⟨c, .connectEstablished⟩]) rest)).AllTended :=
      fun d sd hsd => hnext d sd hsd (by simp)
    have htended := hall c sc hsc
    have hstate := connecting_of_next h hphase hsc hloop
    rw [execute, if_pos (hbatch c ⟨rfl, rfl⟩)]
    refine onConn_tended hids hsc ?_ (fun d sd _ hsd => hall d sd hsd)
      (Conn.connectEstablished_attentive htended.attentive hstate a.onConnection) ?_
      htended.waiting (fun _ _ => Conn.connectEstablished_index _ a.onConnection) ?_
    · intro f hf
      exact (Conn.connectEstablished_queued hf).resolve_left (by simp [assemble])
    · exact Conn.connectEstablished_deleted _ _
    · intro _ _ hclosed
      exact absurd hclosed (Conn.connectEstablished_open _ _)
  | connectDestroyed =>
    obtain ⟨_, sc, hsc, _⟩ := hplaced.resolve_left (by simp)
    have hall : (s.setPhase ℓ (.functors (done ++ [⟨c, .connectDestroyed⟩]) rest)).AllTended :=
      fun d sd hsd => hnext d sd hsd (by simp)
    have herased : ¬ s.Owns c .map := fun hmap => (ht c sc hsc).waiting hmap ℓ hin
    rw [execute, if_pos (hbatch c ⟨rfl, rfl⟩)]
    exact destroyed_tended hids hsc (fun d sd _ hsd => hall d sd hsd) (hall c sc hsc) herased _
  | removeConnectionInLoop =>
    obtain ⟨sc, hsc⟩ := hids.created c (hbatch c ⟨rfl, rfl⟩)
    have htended := ht c sc hsc
    rw [execute, if_pos (hbatch c ⟨rfl, rfl⟩)]
    refine removeConnectionInLoop_tended hids hsc ?_ htended.attentive htended.deleted
    intro d sd hne hsd
    refine hnext d sd hsd ?_
    intro heq
    exact hne (congrArg BoundFunctor.conn heq).symm
  | writeCompleteCallback | writeCompleteMember | highWaterMarkCallback =>
    rw [execute, if_pos (hbatch c ⟨rfl, rfl⟩)]
    exact fun d sd hsd => hnext d sd hsd (by simp)

theorem LoopStep.tended {s s' : Server k} (h : s.Inv) (ht : s.AllTended) {ℓ : Fin (k + 1)}
    {e : LoopLabel} (hfree : s.LoopFree ℓ) (hstep : LoopStep s ℓ e s') : s'.AllTended := by
  have hrun : s.Running ℓ := hstep.running
  cases hstep with
  | part c p rest active a hphase => exact part_tended h ht hphase a
  | functor done rest f mem a hphase => exact functor_tended h ht hfree hphase mem a
  | userCall c u hpolling hexited hlives => exact userCall_tended h ht hlives u
  | poll ready hphase | handle c revents active hphase | handleDead c revents active hphase
  | handled c active hphase | startFunctors hphase | endFunctors done hphase | exit hphase =>
    refine ht.setLoop ?_ hrun
    simp [ServerLoop.queue, hphase, Phase.rest]

/-! ## The other steps -/

theorem addConnection_tended {s : Server k} (h : s.Inv) (ht : s.AllTended) (fd : Nat)
    (ioLoop : Fin (k + 1)) (wc hw : Bool) (mark : Nat) :
    (s.addConnection fd ioLoop wc hw mark).AllTended := by
  intro d sd hsd
  by_cases heq : d = s.nextConnId
  · subst heq
    rw [addConnection_conns_self] at hsd
    obtain rfl := Option.some.inj hsd
    refine
      { attentive := TcpConnection.new_attentive s.nextConnId fd wc hw mark
        deleted := fun hindex => by cases hindex
        waiting := ?_
        present := fun _ hstate => absurd rfl hstate
        closed := fun _ _ hstate => by cases hstate }
    intro _ ℓ hmem
    have hlife : .connectDestroyed ∈ (s.loops ℓ).life s.nextConnId :=
      mem_life.mpr ⟨hmem, Or.inr rfl⟩
    rw [life_fresh h] at hlife
    cases hlife
  · rw [addConnection_conns_ne heq] at hsd
    refine (ht d sd hsd).mono ?_ (fun _ hmem => hmem) id (fun _ hmem => hmem)
    rintro ⟨p, hp, hpd⟩
    rcases List.mem_cons.mp hp with rfl | hp
    · exact absurd hpd.symm heq
    · exact ⟨p, List.mem_of_mem_filter hp, hpd⟩

theorem accept_tended {s : Server k} (h : s.Inv) (ht : s.AllTended) {fd : Nat}
    (hcan : s.CanAccept fd) (ioLoop : Fin (k + 1)) (wc hw : Bool) (mark : Nat)
    (us : List UserCall) : (s.newConnection fd ioLoop wc hw mark us).AllTended := by
  have hadd := addConnection_tended h ht fd ioLoop wc hw mark
  have hids := addConnection_ids h.sane.ids hcan.2.2.2.1 fd ioLoop wc hw mark
  have hnew := addConnection_conns_self s fd ioLoop wc hw mark
  have htended := hadd _ _ hnew
  unfold newConnection
  split
  · refine onConn_tended hids hnew ?_ (fun d sd _ hsd => hadd d sd hsd)
      (Conn.connectEstablished_attentive htended.attentive rfl us)
      (Conn.connectEstablished_deleted _ us) htended.waiting
      (fun _ _ => Conn.connectEstablished_index _ us) ?_
    · intro f hf
      exact (Conn.connectEstablished_queued hf).resolve_left (by simp [assemble])
    · intro _ _ hclosed
      exact absurd hclosed (Conn.connectEstablished_open _ _)
  · intro d sd hsd
    refine (hadd d sd hsd).mono id ?_ ?_ ?_
    · intro ℓ hmem
      rcases List.mem_append.mp hmem with hmem | hmem
      · rw [queueInLoop_phase] at hmem
        exact List.mem_append_left _ hmem
      · rcases mem_queueInLoop.mp hmem with hmem | ⟨_, hqueued⟩
        · exact List.mem_append_right _ hmem
        · cases congrArg BoundFunctor.functor hqueued
    · intro hrun
      rwa [Running, queueInLoop_phase] at hrun
    · intro _ hmem
      rcases List.mem_append.mp hmem with hmem | hmem
      · refine List.mem_append_left _ ?_
        rwa [queueInLoop_phase]
      · exact List.mem_append_right _ (mem_queueInLoop.mpr (Or.inl hmem))

theorem destroyLoop_tended {s : Server k} (ht : s.AllTended) {ℓ : Fin (k + 1)}
    (hphase : (s.loops ℓ).phase = .exited) :
    (s.setLoop ℓ { s.loops ℓ with pending := [] }).AllTended := by
  have hne : (s.setLoop ℓ { s.loops ℓ with pending := [] }).Running baseLoop → baseLoop ≠ ℓ := by
    rintro hrun rfl
    rw [Running, setLoop_loops_self] at hrun
    exact hrun hphase
  intro d sd hsd
  refine (ht d sd hsd).mono id ?_ ?_ ?_
  · intro ℓ' hmem
    by_cases hℓ : ℓ' = ℓ
    · subst hℓ
      rw [setLoop_loops_self] at hmem
      exact List.mem_append_left _ (by simpa [ServerLoop.queue] using hmem)
    · rwa [setLoop_loops_ne s _ hℓ] at hmem
  · intro hrun
    have hℓ := hne hrun
    rwa [Running, setLoop_loops_ne s _ hℓ] at hrun
  · intro hrun hmem
    rwa [setLoop_loops_ne s _ (hne hrun)]

theorem destroyConnection_tended {s : Server k} (h : s.Inv) (ht : s.AllTended) {name : List Char}
    {c : ConnId} {sc : ServerConn k} (hlookup : s.connections.lookup name = some c)
    (hconn : s.conns c = some sc) (us : List UserCall) :
    (s.destroyConnection name c sc us).AllTended := by
  have hids := h.sane.ids
  have htended := ht c sc hconn
  rw [hids.name_of_lookup hconn hlookup]
  unfold destroyConnection
  split
  · -- the entry is erased first
    have htable : (s.eraseConnection sc.name).connections =
        s.connections.filter fun p => p.2 ≠ c := hids.erase_name hconn
    have herased : (s.eraseConnection sc.name).AllTended := by
      intro d sd hsd
      refine (ht d sd hsd).mono ?_ (fun _ hmem => hmem) id (fun _ hmem => hmem)
      rintro ⟨p, hp, hpd⟩
      exact ⟨p, List.mem_of_mem_filter hp, hpd⟩
    have hpass : (s.eraseConnection sc.name).Ids :=
      { counter := hids.counter
        conn := hids.conn
        table := fun p hp => hids.table p (List.mem_of_mem_filter hp)
        created := fun d hd => hids.created d (held_of_eraseConnection hd) }
    refine destroyed_tended hpass hconn (fun d sd _ hsd => herased d sd hsd)
      (herased c sc hconn) ?_ us
    rintro ⟨p, hp, hpd⟩
    rw [htable] at hp
    simp [hpd] at hp
  · have heq : (s.eraseConnection sc.name).queueInLoop sc.loop ⟨c, .connectDestroyed⟩ =
        s.removeConnectionInLoop c := by
      simp [removeConnectionInLoop, hconn]
    rw [heq]
    exact removeConnectionInLoop_tended hids hconn (fun d sd _ hsd => ht d sd hsd)
      htended.attentive htended.deleted

theorem Step.tended {s s' : Server k} (h : s.Inv) (ht : s.AllTended) {e : Label k}
    (hown : s.OwnThread e) (hstep : Step s e s') : s'.AllTended := by
  cases hstep with
  | loop ℓ e hfree hloop => exact hloop.tended h ht hfree
  | accept fd ioLoop wc hw mark us hcan => exact accept_tended h ht hcan ioLoop wc hw mark us
  | destroyLoop ℓ hphase => exact destroyLoop_tended ht hphase
  | destroyConn name us c sc hlife hlookup hconn =>
    exact destroyConnection_tended h ht hlookup hconn us
  | dtor | dtorEnd | hold | drop => exact ht.of_same rfl rfl rfl
  | send | sendQueue | shutdown | shutdownStore | shutdownQueue => exact hown.elim

/-- `Inv`, and every connection is tended. -/
structure Orderly (s : Server k) : Prop where
  inv : s.Inv
  tended : s.AllTended

theorem Orderly.step {s : Server k} (h : s.Orderly) (e : Label k) (hown : s.OwnThread e) :
    (s.step e).Orderly := by
  refine ⟨h.inv.step e hown, ?_⟩
  apply covers.elim h.tended
  intro s' hstep
  exact hstep.tended h.inv h.tended hown

theorem init_orderly (k : Nat) (name : List Char) (listenAddr : InetAddress) :
    (init k name listenAddr).Orderly where
  inv := init_inv k name listenAddr
  tended c sc hc := by simp [init] at hc

/-! ## What the pollers list -/

/-- `c` is a connection of loop `ℓ` that exists, and has the descriptor `fd`. -/
def HasFd (s : Server k) (ℓ : Fin (k + 1)) (fd : Nat) (c : ConnId) : Prop :=
  s.Held c ∧ ∃ sc, s.conns c = some sc ∧ sc.loop = ℓ ∧ sc.tcp.channel.fd = fd

/-- In the loops that run: what a poller lists under a descriptor, and what the
kernel watches for it, is the connection of this loop that has the descriptor;
no other poller lists the same descriptor; and one that is not open, as `accept`
may return it, is listed by none. -/
structure Tracked (s : Server k) : Prop where
  channels : ∀ ℓ fd c, s.Running ℓ → (s.loops ℓ).poller.channels fd = some c → s.HasFd ℓ fd c
  epoll : ∀ ℓ fd r, s.Running ℓ → (s.loops ℓ).poller.epoll fd = some r → s.HasFd ℓ fd r.ptr
  once : ∀ ℓ ℓ' fd, s.Running ℓ → s.Running ℓ' → (s.loops ℓ).poller.channels fd ≠ none →
    (s.loops ℓ').poller.channels fd ≠ none → ℓ = ℓ'
  fresh : ∀ ℓ fd, s.Running ℓ → ¬ s.FdOpen fd →
    (s.loops ℓ).poller.channels fd = none ∧ (s.loops ℓ).poller.epoll fd = none

theorem HasFd.fdOpen {s : Server k} (hs : s.Ids) {ℓ : Fin (k + 1)} {fd : Nat} {c : ConnId}
    (h : s.HasFd ℓ fd c) : s.FdOpen fd := by
  obtain ⟨hheld, sc, hsc, _, hfd⟩ := h
  exact ⟨c, (hs.conn c sc hsc).1, ⟨sc, hsc, hfd⟩, hheld⟩

theorem Inv.tracked {s : Server k} (h : s.Inv) : s.Tracked := by
  have hchannels : ∀ ℓ fd c, s.Running ℓ → (s.loops ℓ).poller.channels fd = some c →
      s.HasFd ℓ fd c := by
    intro ℓ fd c hrun hentry
    obtain ⟨sc, hsc, hloop, hfd, hindex⟩ := (h.sane.pollers ℓ hrun).channels fd c hentry
    exact ⟨h.alive ℓ c hrun ⟨sc, hsc, hloop, hindex⟩, sc, hsc, hloop, hfd⟩
  have hepoll : ∀ ℓ fd r, s.Running ℓ → (s.loops ℓ).poller.epoll fd = some r →
      s.HasFd ℓ fd r.ptr := by
    intro ℓ fd r hrun hentry
    obtain ⟨sc, hsc, hloop, hfd, hindex⟩ := (h.sane.pollers ℓ hrun).epoll fd r hentry
    exact ⟨h.alive ℓ _ hrun ⟨sc, hsc, hloop, by simp [hindex]⟩, sc, hsc, hloop, hfd⟩
  refine ⟨hchannels, hepoll, ?_, ?_⟩
  · intro ℓ ℓ' fd hrun hrun' hlisted hlisted'
    obtain ⟨c, hc⟩ := Option.ne_none_iff_exists'.mp hlisted
    obtain ⟨c', hc'⟩ := Option.ne_none_iff_exists'.mp hlisted'
    obtain ⟨hheld, sc, hsc, hloop, hfd⟩ := hchannels ℓ fd c hrun hc
    obtain ⟨hheld', sc', hsc', hloop', hfd'⟩ := hchannels ℓ' fd c' hrun' hc'
    -- two connections that exist do not share a descriptor
    have hsame := h.sane.fds c c' sc sc' hsc hsc' hheld hheld' (hfd.trans hfd'.symm)
    subst hsame
    obtain rfl := Option.some.inj (hsc.symm.trans hsc')
    exact hloop.symm.trans hloop'
  · intro ℓ fd hrun hclosed
    constructor
    · by_contra hlisted
      obtain ⟨c, hc⟩ := Option.ne_none_iff_exists'.mp hlisted
      exact hclosed ((hchannels ℓ fd c hrun hc).fdOpen h.sane.ids)
    · by_contra hlisted
      obtain ⟨r, hr⟩ := Option.ne_none_iff_exists'.mp hlisted
      exact hclosed ((hepoll ℓ fd r hrun hr).fdOpen h.sane.ids)

/-- A connection is accepted and hangs up; the next one gets its descriptor. -/
def hangUpAndReuse : List (Label 2) :=
  [.loop 0 (.poll []), .accept 5 1 false false 0 [], .loop 0 .startFunctors, .loop 0 .endFunctors,
    .loop 1 (.poll []), .loop 1 .startFunctors, .loop 1 (.functor (fun _ => 0) quiet),
    .loop 1 .endFunctors, .loop 1 (.poll [(5, EPOLLHUP)]), .loop 1 .handle, .loop 1 (.part quiet),
    .loop 1 .handled, .loop 0 (.poll []), .loop 0 .startFunctors,
    .loop 0 (.functor (fun _ => 0) quiet), .loop 0 .endFunctors, .loop 1 .startFunctors,
    .loop 1 (.functor (fun _ => 0) quiet), .loop 1 .endFunctors, .loop 0 (.poll []),
    .accept 5 1 false false 0 [], .loop 0 .startFunctors, .loop 0 .endFunctors, .loop 1 (.poll []),
    .loop 1 .startFunctors, .loop 1 (.functor (fun _ => 0) quiet), .loop 1 .endFunctors]

/-- Where connections are used in the threads of their loops, no poller ever lists a
connection that is dead or lives in another loop, nor a descriptor that has been closed. -/
theorem descriptors_tracked (name : List Char) (listenAddr : InetAddress) (es : List (Label k))
    (h : EachStep step (init k name listenAddr) OwnThread es) :
    Always step (init k name listenAddr) Tracked es :=
  (always_of_eachStep (init_inv k name listenAddr) (fun _ e hs hown => hs.step e hown) h).mono
    fun _ hs => hs.tracked

theorem descriptors_tracked_reuse :
    Always step (init 2 ['e'] ⟨fun _ => 0#8, 80#16⟩) Tracked hangUpAndReuse :=
  descriptors_tracked ['e'] ⟨fun _ => 0#8, 80#16⟩ _ (by decide)

/-! ## At rest -/

/-- All loops are about to poll with nothing queued, and users keep no pointer. -/
def AtRest (s : Server k) : Prop :=
  (∀ ℓ, (s.loops ℓ).phase = .polling ∧ (s.loops ℓ).pending = []) ∧ s.users = []

/-- The connections that exist are those of the table, and they are up; each
poller lists those of its loop and no others, and the kernel watches each of
their descriptors for exactly what the connection waits for. -/
structure Settled (s : Server k) : Prop where
  listed : ∀ c, s.Held c ↔ s.Owns c .map
  up : ∀ c sc, s.conns c = some sc → s.Held c →
    sc.tcp.state = .kConnected ∨ sc.tcp.state = .kDisconnecting
  channels : ∀ ℓ fd c, (s.loops ℓ).poller.channels fd = some c ↔ s.HasFd ℓ fd c
  watched : ∀ ℓ fd r, (s.loops ℓ).poller.epoll fd = some r ↔
    s.HasFd ℓ fd r.ptr ∧ ∃ sc, s.conns r.ptr = some sc ∧ r.events = sc.tcp.interest

theorem AtRest.queue {s : Server k} (h : s.AtRest) (ℓ : Fin (k + 1)) :
    (s.loops ℓ).queue = [] := by
  rw [ServerLoop.queue, (h.1 ℓ).1, (h.1 ℓ).2]
  rfl

theorem AtRest.running {s : Server k} (h : s.AtRest) (ℓ : Fin (k + 1)) : s.Running ℓ := by
  rw [Running, (h.1 ℓ).1]
  simp

theorem AtRest.listed {s : Server k} (h : s.AtRest) (c : ConnId) : s.Held c ↔ s.Owns c .map := by
  constructor
  · rintro ⟨o, ho⟩
    cases o with
    | map => exact ho
    | user tid => simp [Owns, h.2] at ho
    | pending ℓ => simp [Owns, (h.1 ℓ).2] at ho
    | batch ℓ => simp [Owns, (h.1 ℓ).1, Phase.batch] at ho
    | guard ℓ => simp [Owns, (h.1 ℓ).1, Phase.guarded] at ho
  · exact fun hmap => ⟨.map, hmap⟩

/-- With nothing waiting, a connection of the table is up. -/
theorem Orderly.up {s : Server k} (h : s.Orderly) (hrest : s.AtRest) {c : ConnId}
    {sc : ServerConn k} (hconn : s.conns c = some sc) (hmap : s.Owns c .map) :
    sc.tcp.state = .kConnected ∨ sc.tcp.state = .kDisconnecting := by
  have htended := h.tended c sc hconn
  cases hstate : sc.tcp.state with
  | kConnected => exact Or.inl rfl
  | kDisconnecting => exact Or.inr rfl
  | kConnecting =>
    cases h.inv.staged c sc hconn (hrest.running sc.loop) with
    | connecting rest hs hindex hloop hlife => simp [ServerLoop.life, hrest.queue] at hlife
    | up hs => exact absurd hstate hs
    | gone hs => exact absurd hstate hs
  | kDisconnected =>
    have hwaits := htended.closed hmap (hrest.running _) hstate
    rw [hrest.queue] at hwaits
    cases hwaits

/-- The channel of a connection that is up is `Added`. -/
theorem Tended.added {s : Server k} {c : ConnId} {sc : ServerConn k} (h : s.Tended c sc)
    (hmap : s.Owns c .map) (hup : sc.tcp.state = .kConnected ∨ sc.tcp.state = .kDisconnecting) :
    sc.tcp.channel.index = .added := by
  have hnew : sc.tcp.channel.index ≠ .new := by
    refine h.present hmap ?_
    rcases hup with hstate | hstate
    · simp [hstate]
    · simp [hstate]
  cases hindex : sc.tcp.channel.index with
  | new => exact absurd hindex hnew
  | added => rfl
  | deleted =>
    -- it asks for input at least
    have hevents := h.attentive.opened hup
    rw [h.deleted hindex, TcpConnection.interest] at hevents
    split at hevents
    · exact absurd hevents (by decide)
    · exact absurd hevents (by decide)

theorem Orderly.settled {s : Server k} (h : s.Orderly) (hrest : s.AtRest) : s.Settled := by
  have hlisted := hrest.listed
  have hup : ∀ c sc, s.conns c = some sc → s.Held c →
      sc.tcp.state = .kConnected ∨ sc.tcp.state = .kDisconnecting :=
    fun c sc hsc hheld => h.up hrest hsc ((hlisted c).mp hheld)
  have htracked := h.inv.tracked
  -- the two maps, at the descriptor of a connection that exists
  have hviews : ∀ c sc, s.conns c = some sc → s.Held c →
      (s.loops sc.loop).poller.channels sc.tcp.channel.fd = some c ∧
        (s.loops sc.loop).poller.epoll sc.tcp.channel.fd = some ⟨c, sc.tcp.interest⟩ := by
    intro c sc hsc hheld
    have hmap := (hlisted c).mp hheld
    have htended := h.tended c sc hsc
    have hadded := htended.added hmap (hup c sc hsc hheld)
    have hself := (h.inv.sane.ids.conn c sc hsc).2.2
    obtain ⟨hchannels, hepoll⟩ := (h.inv.sane.pollers _ (hrest.running _)).coherent c sc hsc rfl
      (by simp [hadded])
    constructor
    · rw [hchannels, if_neg (by simp [hadded]), hself]
    · rw [hepoll, if_pos hadded, hself, htended.attentive.opened (hup c sc hsc hheld)]
  refine ⟨hlisted, hup, ?_, ?_⟩
  · intro ℓ fd c
    constructor
    · exact htracked.channels ℓ fd c (hrest.running ℓ)
    · rintro ⟨hheld, sc, hsc, rfl, rfl⟩
      exact (hviews c sc hsc hheld).1
  · intro ℓ fd r
    constructor
    · intro hentry
      have hhas := htracked.epoll ℓ fd r (hrest.running ℓ) hentry
      obtain ⟨hheld, sc, hsc, rfl, rfl⟩ := hhas
      refine ⟨⟨hheld, sc, hsc, rfl, rfl⟩, sc, hsc, ?_⟩
      rw [(hviews _ sc hsc hheld).2] at hentry
      exact (congrArg Registration.events (Option.some.inj hentry)).symm
    · rintro ⟨⟨hheld, sc, hsc, rfl, rfl⟩, sd, hsd, hevents⟩
      obtain rfl := Option.some.inj (hsc.symm.trans hsd)
      rw [(hviews _ sc hsc hheld).2, ← hevents]

/-- In the same runs nothing leaks and nothing is left half destroyed: at rest the table,
the pollers and the kernel agree on the connections there are. -/
theorem settled_at_rest (name : List Char) (listenAddr : InetAddress) (es : List (Label k))
    (h : EachStep step (init k name listenAddr) OwnThread es) :
    Always step (init k name listenAddr) (fun s => s.AtRest → s.Settled) es :=
  (always_of_eachStep (init_orderly k name listenAddr) (fun _ e hs hown => hs.step e hown) h).mono
    fun _ hs hrest => hs.settled hrest

theorem settled_at_rest_reuse :
    Always step (init 2 ['e'] ⟨fun _ => 0#8, 80#16⟩) (fun s => s.AtRest → s.Settled)
      hangUpAndReuse :=
  settled_at_rest ['e'] ⟨fun _ => 0#8, 80#16⟩ _ (by decide)

end Server

end EchoServer
