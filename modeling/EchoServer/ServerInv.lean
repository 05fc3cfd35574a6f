import EchoServer.ServerFrames

/-!
# The invariant of a server whose connections are used in their own loops

* `Sane`: descriptors of existing connections are distinct, functors wait in
  the loop of their connection, and the entries of a running loop's poller are
  those of its own connections whose index is not `New`;
* `Sane.coherent`: the channel of a connection that exists agrees with its
  poller;
* `Sane.of_frame`, `onConn_sane`: steps between operations, and one operation.
-/

namespace EchoServer

open Runs Trace

namespace Phase

/-- The connections of the active channels, the one being handled included. -/
def channels : Phase → List ConnId
  | .handlers active => active.map (·.1)
  | .handling guard _ active => guard :: active.map (·.1)
  | _ => []

end Phase

namespace Server

variable {k : Nat}

/-! ## Descriptors, queues and pollers -/

/-- The loop has not left `loop()`. -/
def Running (s : Server k) (ℓ : Fin (k + 1)) : Prop := (s.loops ℓ).phase ≠ .exited

/-- No two connections that exist have the same descriptor. -/
def DistinctFds (s : Server k) : Prop :=
  ∀ c c' sc sc', s.conns c = some sc → s.conns c' = some sc' → s.Held c → s.Held c' →
    sc.tcp.channel.fd = sc'.tcp.channel.fd → c = c'

theorem Keeps.distinctFds {s s' : Server k} (h : Keeps s s') (hs : s.DistinctFds) :
    s'.DistinctFds := by
  intro c c' sc sc' hc hc' hheld hheld' hfd
  obtain ⟨sd, hsd, hsame⟩ := h.conn c sc hc
  obtain ⟨sd', hsd', hsame'⟩ := h.conn c' sc' hc'
  rw [hsame.fd, hsame'.fd] at hfd
  exact hs c c' sd sd' hsd hsd' (h.held c hheld) (h.held c' hheld') hfd

/-- A functor in the queue of loop `ℓ`: `removeConnectionInLoop`, or one of a
connection of that loop, but not of a `send` from elsewhere. -/
def Placed (s : Server k) (ℓ : Fin (k + 1)) (f : BoundFunctor) : Prop :=
  f.functor = .removeConnectionInLoop ∨
    (∀ buf, f.functor ≠ .sendInLoop buf) ∧ ∃ sc, s.conns f.conn = some sc ∧ sc.loop = ℓ

theorem Keeps.placed {s s' : Server k} (h : Keeps s s') {ℓ : Fin (k + 1)} {f : BoundFunctor}
    (hf : s.Placed ℓ f) : s'.Placed ℓ f := by
  rcases hf with hf | ⟨hsend, sc, hsc, hloop⟩
  · exact Or.inl hf
  · obtain ⟨sc', hsc'⟩ := h.created _ _ hsc
    obtain ⟨sd, hsd, hsame⟩ := h.conn _ _ hsc'
    rw [hsc] at hsd
    obtain rfl := Option.some.inj hsd
    exact Or.inr ⟨hsend, sc', hsc', hsame.loop.trans hloop⟩

/-- A connection of loop `ℓ` whose channel is in the poller's map. -/
def Enrolled (s : Server k) (ℓ : Fin (k + 1)) (c : ConnId) : Prop :=
  ∃ sc, s.conns c = some sc ∧ sc.loop = ℓ ∧ sc.tcp.channel.index ≠ .new

/-- The poller of loop `ℓ` lists the loop's own connections, as their channels
say. -/
structure PollerOk (s : Server k) (ℓ : Fin (k + 1)) : Prop where
  channels : ∀ fd p, (s.loops ℓ).poller.channels fd = some p →
    ∃ sc, s.conns p = some sc ∧ sc.loop = ℓ ∧ sc.tcp.channel.fd = fd ∧
      sc.tcp.channel.index ≠ .new
  epoll : ∀ fd r, (s.loops ℓ).poller.epoll fd = some r →
    ∃ sc, s.conns r.ptr = some sc ∧ sc.loop = ℓ ∧ sc.tcp.channel.fd = fd ∧
      sc.tcp.channel.index = .added
  coherent : ∀ c sc, s.conns c = some sc → sc.loop = ℓ → sc.tcp.channel.index ≠ .new →
    (s.loops ℓ).poller.Coherent sc.tcp.channel

/-- The poller and the enrolled connections of the loop are as before. -/
theorem PollerOk.mono {s s' : Server k} {ℓ : Fin (k + 1)} (h : s.PollerOk ℓ)
    (hpoller : (s'.loops ℓ).poller = (s.loops ℓ).poller)
    (hkeep : ∀ c sc, s.conns c = some sc → sc.loop = ℓ → s'.conns c = some sc)
    (hback : ∀ c sc, s'.conns c = some sc → sc.loop = ℓ → sc.tcp.channel.index ≠ .new →
      s.conns c = some sc) : s'.PollerOk ℓ where
  channels fd p hp := by
    rw [hpoller] at hp
    obtain ⟨sc, hsc, hloop, hfd, hindex⟩ := h.channels fd p hp
    exact ⟨sc, hkeep p sc hsc hloop, hloop, hfd, hindex⟩
  epoll fd r hr := by
    rw [hpoller] at hr
    obtain ⟨sc, hsc, hloop, hfd, hindex⟩ := h.epoll fd r hr
    exact ⟨sc, hkeep _ sc hsc hloop, hloop, hfd, hindex⟩
  coherent c sc hsc hloop hindex := by
    rw [hpoller]
    exact h.coherent c sc (hback c sc hsc hloop hindex) hloop hindex

structure Sane (s : Server k) : Prop where
  ids : s.Ids
  idle : ∀ tid, (s.calls tid).pc = .idle
  /-- `~TcpServer` does not run inside a handler. -/
  away : s.lifetime = .destroying → (s.loops 0).phase.inHandlers = false
  fds : s.DistinctFds
  queued : ∀ ℓ, ∀ f ∈ (s.loops ℓ).queue, s.Placed ℓ f
  active : ∀ ℓ, ∀ c ∈ (s.loops ℓ).phase.channels, s.Enrolled ℓ c
  pollers : ∀ ℓ, s.Running ℓ → s.PollerOk ℓ

/-- In a running loop, enrolled connections exist. -/
def Alive (s : Server k) : Prop := ∀ ℓ c, s.Running ℓ → s.Enrolled ℓ c → s.Held c

/-- The channel of a connection that exists agrees with its poller: what else is
listed under the descriptor would be another connection that exists. -/
theorem Sane.coherent {s : Server k} (h : s.Sane) (halive : s.Alive) {c : ConnId}
    {sc : ServerConn k} (hconn : s.conns c = some sc) (hrun : s.Running sc.loop)
    (hheld : s.Held c) : (s.assemble sc).Coherent := by
  have hok := h.pollers sc.loop hrun
  by_cases hindex : sc.tcp.channel.index = .new
  · have hother : ∀ p sd, s.conns p = some sd → sd.loop = sc.loop →
        sd.tcp.channel.fd = sc.tcp.channel.fd → sd.tcp.channel.index ≠ .new → False := by
      intro p sd hsd hloop hfd hne
      obtain rfl := h.fds p c sd sc hsd hconn (halive _ p hrun ⟨sd, hsd, hloop, hne⟩) hheld hfd
      rw [hconn] at hsd
      obtain rfl := Option.some.inj hsd
      exact hne hindex
    have hnew : (s.assemble sc).tcp.channel.index = .new := hindex
    constructor
    · rw [if_pos hnew]
      by_contra hsome
      obtain ⟨p, hp⟩ := Option.ne_none_iff_exists'.mp hsome
      obtain ⟨sd, hsd, hloop, hfd, hne⟩ := hok.channels _ p hp
      exact hother p sd hsd hloop hfd hne
    · rw [if_neg (by simp [hnew])]
      by_contra hsome
      obtain ⟨r, hr⟩ := Option.ne_none_iff_exists'.mp hsome
      obtain ⟨sd, hsd, hloop, hfd, hne⟩ := hok.epoll _ r hr
      exact hother _ sd hsd hloop hfd (by simp [hne])
  · exact hok.coherent c sc hconn rfl hindex

/-! ## Steps that leave the connections alone -/

/-- Connections and pollers are as before; queues and active channels only
shrink, or take in what is in its place. -/
theorem Sane.of_frame {s s' : Server k} (h : s.Sane) (hkeeps : Keeps s s')
    (hconns : s'.conns = s.conns) (hcalls : s'.calls = s.calls)
    (haway : s'.lifetime = .destroying → (s'.loops 0).phase.inHandlers = false)
    (hqueue : ∀ ℓ, ∀ f ∈ (s'.loops ℓ).queue, f ∈ (s.loops ℓ).queue ∨ s.Placed ℓ f)
    (hactive : ∀ ℓ, ∀ c ∈ (s'.loops ℓ).phase.channels, s.Enrolled ℓ c)
    (hpoller : ∀ ℓ, (s'.loops ℓ).poller = (s.loops ℓ).poller)
    (hrun : ∀ ℓ, s'.Running ℓ → s.Running ℓ) : s'.Sane where
  ids := hkeeps.ids h.ids
  idle := by
    rw [hcalls]
    exact h.idle
  away := haway
  fds := hkeeps.distinctFds h.fds
  queued ℓ f hf := by
    rcases hqueue ℓ f hf with hf | hf
    · exact hkeeps.placed (h.queued ℓ f hf)
    · exact hkeeps.placed hf
  active ℓ c hc := by
    obtain ⟨sc, hsc, hin⟩ := hactive ℓ c hc
    exact ⟨sc, by rw [hconns, hsc], hin⟩
  pollers ℓ hℓ := by
    refine (h.pollers ℓ (hrun ℓ hℓ)).mono (hpoller ℓ) ?_ ?_
    · intro c sc hsc _
      rw [hconns, hsc]
    · intro c sc hsc _ _
      rw [← hconns, hsc]

theorem Sane.setLoop {s : Server k} (h : s.Sane) {ℓ : Fin (k + 1)} {l : ServerLoop}
    (hkeeps : Keeps s (s.setLoop ℓ l)) (hpoller : l.poller = (s.loops ℓ).poller)
    (hqueue : ∀ f ∈ l.queue, f ∈ (s.loops ℓ).queue ∨ s.Placed ℓ f)
    (hactive : ∀ c ∈ l.phase.channels, s.Enrolled ℓ c)
    (hrun : l.phase ≠ .exited → s.Running ℓ)
    (haway : ℓ = 0 → s.lifetime = .destroying → l.phase.inHandlers = false) :
    (s.setLoop ℓ l).Sane := by
  refine h.of_frame hkeeps rfl rfl ?_ ?_ ?_ ?_ ?_
  · intro hlife
    by_cases hℓ : (0 : Fin (k + 1)) = ℓ
    · subst hℓ
      rw [setLoop_loops_self]
      exact haway rfl hlife
    · rw [setLoop_loops_ne s l hℓ]
      exact h.away hlife
  · intro ℓ' f hf
    by_cases hℓ : ℓ' = ℓ
    · subst hℓ
      rw [setLoop_loops_self] at hf
      exact hqueue f hf
    · rw [setLoop_loops_ne s l hℓ] at hf
      exact Or.inl hf
  · intro ℓ' c hc
    by_cases hℓ : ℓ' = ℓ
    · subst hℓ
      rw [setLoop_loops_self] at hc
      exact hactive c hc
    · rw [setLoop_loops_ne s l hℓ] at hc
      exact h.active ℓ' c hc
  · intro ℓ'
    by_cases hℓ : ℓ' = ℓ
    · rw [hℓ, setLoop_loops_self, hpoller]
    · rw [setLoop_loops_ne s l hℓ]
  · intro ℓ' hℓ'
    by_cases hℓ : ℓ' = ℓ
    · subst hℓ
      rw [Running, setLoop_loops_self] at hℓ'
      exact hrun hℓ'
    · rw [Running, setLoop_loops_ne s l hℓ] at hℓ'
      exact hℓ'

/-! ## One operation -/

theorem Alive.held {s s' : Server k} (h : s.Alive) (hheld : ∀ c, s.Held c → s'.Held c)
    (hrun : ∀ ℓ, s'.Running ℓ → s.Running ℓ)
    (henrolled : ∀ ℓ c, s'.Enrolled ℓ c → s.Enrolled ℓ c) : s'.Alive :=
  fun ℓ c hℓ hc => hheld c (h ℓ c (hrun ℓ hℓ) (henrolled ℓ c hc))

theorem onConn_conns_self {s : Server k} {c : ConnId} {sc : ServerConn k}
    (hconn : s.conns c = some sc) (op : Conn → Conn) :
    (s.onConn c op).conns c = some { sc with tcp := (op (s.assemble sc)).tcp } := by
  rw [(onConn_cases hconn op).conns, store_conns_self]

theorem onConn_conns_ne {s : Server k} {c c' : ConnId} {sc : ServerConn k}
    (hconn : s.conns c = some sc) (op : Conn → Conn) (hne : c' ≠ c) :
    (s.onConn c op).conns c' = s.conns c' := by
  rw [(onConn_cases hconn op).conns, store_conns_ne s sc _ hne]

/-- The poller of the connection's loop after a local operation. -/
theorem onConn_pollerOk_self {s : Server k} (h : s.Sane) (halive : s.Alive) {c : ConnId}
    {sc : ServerConn k} (hconn : s.conns c = some sc) (hheld : s.Held c)
    (hrun : s.Running sc.loop) {op : Conn → Conn}
    (hop : Conn.Localized (s.assemble sc) (op (s.assemble sc))) :
    (s.onConn c op).PollerOk sc.loop := by
  have hreplay := onConn_cases hconn op
  have hok := h.pollers sc.loop hrun
  have hpoller : ((s.onConn c op).loops sc.loop).poller = (op (s.assemble sc)).poller := by
    rw [hreplay.poller, store_poller_self]
  have hself := onConn_conns_self hconn op
  obtain ⟨hmap, hreg⟩ := hop.coherent (h.coherent halive hconn hrun hheld)
  have hid : (op (s.assemble sc)).tcp.channel.self = c := by
    rw [hop.self]
    exact (h.ids.conn c sc hconn).2.2
  have hfd : (op (s.assemble sc)).tcp.channel.fd = sc.tcp.channel.fd := hop.fd
  -- an entry under another descriptor is an old one, of another connection
  have hother : ∀ p sd, s.conns p = some sd → sd.tcp.channel.fd ≠ sc.tcp.channel.fd →
      (s.onConn c op).conns p = some sd := by
    intro p sd hsd hne
    rw [onConn_conns_ne hconn op]
    · exact hsd
    · rintro rfl
      rw [hconn] at hsd
      obtain rfl := Option.some.inj hsd
      exact hne rfl
  constructor
  · -- what `channels_` maps
    intro fd p hp
    rw [hpoller] at hp
    by_cases heq : fd = sc.tcp.channel.fd
    · rw [heq, ← hfd, hmap] at hp
      split at hp
      · cases hp
      · rename_i hindex
        obtain rfl := Option.some.inj hp
        rw [hid]
        exact ⟨_, hself, rfl, hfd.trans heq.symm, hindex⟩
    · rw [hop.channels fd heq] at hp
      obtain ⟨sd, hsd, hloop, hsdfd, hindex⟩ := hok.channels fd p hp
      exact ⟨sd, hother p sd hsd (by rwa [hsdfd]), hloop, hsdfd, hindex⟩
  · -- what epoll has registered
    intro fd r hr
    rw [hpoller] at hr
    by_cases heq : fd = sc.tcp.channel.fd
    · rw [heq, ← hfd, hreg] at hr
      split at hr
      · rename_i hindex
        obtain rfl := Option.some.inj hr
        rw [hid]
        exact ⟨_, hself, rfl, hfd.trans heq.symm, hindex⟩
      · cases hr
    · rw [hop.epoll fd heq] at hr
      obtain ⟨sd, hsd, hloop, hsdfd, hindex⟩ := hok.epoll fd r hr
      exact ⟨sd, hother _ sd hsd (by rwa [hsdfd]), hloop, hsdfd, hindex⟩
  · -- the other way round, from the index of a channel
    intro d sd hsd hloop hindex
    rw [hpoller]
    by_cases heq : d = c
    · subst heq
      rw [hself] at hsd
      obtain rfl := Option.some.inj hsd
      exact ⟨hmap, hreg⟩
    · rw [onConn_conns_ne hconn op heq] at hsd
      have hdheld := halive _ d hrun ⟨sd, hsd, hloop, hindex⟩
      have hne : sd.tcp.channel.fd ≠ sc.tcp.channel.fd :=
        fun hsame => heq (h.fds d c sd sc hsd hconn hdheld hheld hsame)
      obtain ⟨hdmap, hdreg⟩ := hok.coherent d sd hsd hloop hindex
      exact ⟨(hop.channels _ hne).trans hdmap, (hop.epoll _ hne).trans hdreg⟩

/-- An operation of a connection that exists, in its own loop. -/
theorem onConn_sane {s : Server k} (h : s.Sane) (halive : s.Alive) {c : ConnId}
    {sc : ServerConn k} (hconn : s.conns c = some sc) (hheld : s.Held c) {op : Conn → Conn}
    (hop : ∀ d, Conn.Localized d (op d))
    (hqueued : ∀ f, .queueInLoop f ∈ (op (s.assemble sc)).trace → f.OwnThread)
    (hactive : ∀ ℓ, c ∈ (s.loops ℓ).phase.channels →
      (op (s.assemble sc)).tcp.channel.index ≠ .new) : (s.onConn c op).Sane := by
  have hreplay := onConn_cases hconn op
  have hpass := onConn_passes h.ids hheld hop
  have hthreads := onConn_threads s c op
  have hself := onConn_conns_self hconn op
  refine
    { ids := hpass.toKeeps.ids h.ids
      idle := ?_
      away := ?_
      fds := hpass.toKeeps.distinctFds h.fds
      queued := ?_
      active := ?_
      pollers := ?_ }
  · rw [hthreads.calls]
    exact h.idle
  · rw [hthreads.lifetime, onConn_phase]
    exact h.away
  · -- the functors queued here belong to this loop
    intro ℓ f hf
    have hplaced : (∀ buf, f.functor ≠ .sendInLoop buf) → f.conn = c → ℓ = sc.loop →
        (s.onConn c op).Placed ℓ f := by
      rintro hsend rfl rfl
      exact Or.inr ⟨hsend, _, hself, rfl⟩
    rcases List.mem_append.mp hf with hf | hf
    · rw [onConn_phase] at hf
      exact hpass.toKeeps.placed (h.queued ℓ f (List.mem_append_left _ hf))
    · rcases (hreplay.pending ℓ).mem_or hf with hf | ⟨hfc, ⟨hℓ, hmem⟩ | ⟨_, hf⟩ | ⟨hℓ, hf⟩⟩
      · rw [store_pending] at hf
        exact hpass.toKeeps.placed (h.queued ℓ f (List.mem_append_right _ hf))
      · refine hplaced ?_ hfc hℓ
        intro buf hbuf
        rcases hqueued _ hmem with hcb | hsd
        · rw [hbuf] at hcb
          exact hcb
        · rw [hbuf] at hsd
          cases hsd
      · exact Or.inl hf
      · exact hplaced (by simp [hf]) hfc hℓ
  · intro ℓ d hd
    rw [onConn_phase] at hd
    obtain ⟨sd, hsd, hloop, hindex⟩ := h.active ℓ d hd
    by_cases heq : d = c
    · subst heq
      rw [hconn] at hsd
      obtain rfl := Option.some.inj hsd
      exact ⟨_, hself, hloop, hactive ℓ hd⟩
    · exact ⟨sd, by rw [onConn_conns_ne hconn op heq, hsd], hloop, hindex⟩
  · -- the pollers of the other loops are untouched
    intro ℓ hℓ
    have hrun : s.Running ℓ := by
      rw [Running, onConn_phase] at hℓ
      exact hℓ
    by_cases heq : ℓ = sc.loop
    · subst heq
      exact onConn_pollerOk_self h halive hconn hheld hrun (hop _)
    · refine (h.pollers ℓ hrun).mono ?_ ?_ ?_
      · rw [hreplay.poller, store_poller_ne s c _ heq]
      · intro d sd hsd hloop
        rw [onConn_conns_ne hconn op]
        · exact hsd
        · rintro rfl
          rw [hconn] at hsd
          obtain rfl := Option.some.inj hsd
          exact heq hloop.symm
      · intro d sd hsd hloop _
        rw [onConn_conns_ne hconn op] at hsd
        · exact hsd
        · rintro rfl
          rw [hself] at hsd
          obtain rfl := Option.some.inj hsd
          exact heq hloop.symm

end Server

end EchoServer
