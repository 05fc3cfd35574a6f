import EchoServer.ChannelLifetime
import EchoServer.Uniform

/-!
# Every connection has its home in one loop

Whatever other threads do: what a loop has to do with a connection, it has to do
with one of its own. Its poller watches descriptors of its own connections, its
active channels are theirs, and the functors in its queue are bound to them, but
for `removeConnectionInLoop` in the base loop.

* `Tidy`: a step adds nothing that is not at home; one lemma for each kind of step;
* `Regular`, `Homed.step`: so it is in every run in which `epoll_wait` reports a
  descriptor once, and `~TcpServer` is not called from a handler.
-/

namespace EchoServer

open Runs Trace

namespace Server

variable {k : Nat}

/-- The connection lives in loop `ℓ`. -/
def HasHome (s : Server k) (ℓ : Fin (k + 1)) (c : ConnId) : Prop :=
  ∃ sc, s.conns c = some sc ∧ sc.loop = ℓ

/-- What a poller has registered is a connection of the loop, under its descriptor
and with index `Added`. -/
def Watched (s : Server k) : Prop :=
  ∀ ℓ fd r, (s.loops ℓ).poller.epoll fd = some r →
    ∃ sc, s.conns r.ptr = some sc ∧ sc.loop = ℓ ∧ sc.tcp.channel.fd = fd ∧
      sc.tcp.channel.index = .added

/-- The functor is to be executed in loop `ℓ`. -/
def HomeFunctor (s : Server k) (ℓ : Fin (k + 1)) (f : BoundFunctor) : Prop :=
  f.functor = .removeConnectionInLoop ∨ s.HasHome ℓ f.conn

/-- Threads call connections that have been created. -/
def Called (s : Server k) : Prop :=
  ∀ tid, (s.calls tid).pc ≠ .idle → ∃ sc, s.conns (s.calls tid).conn = some sc

structure Homed (s : Server k) : Prop where
  ids : s.Ids
  called : s.Called
  /-- `~TcpServer` does not run inside a handler. -/
  away : s.lifetime = .destroying → (s.loops baseLoop).phase.inHandlers = false
  watched : s.Watched
  active : ∀ ℓ, ∀ c ∈ (s.loops ℓ).phase.channels, s.HasHome ℓ c
  /-- No channel is active twice. -/
  once : ∀ ℓ, (s.loops ℓ).phase.channels.Nodup
  queued : ∀ ℓ, ∀ f ∈ (s.loops ℓ).queue, s.HomeFunctor ℓ f

/-- What the surroundings keep to: `epoll_wait` reports a descriptor once, user code
calls a connection after it has been told of it, `send` is given the length of its
string, and `~TcpServer` is not called from a handler of the base loop. -/
def Regular (s : Server k) : Label k → Prop
  | .loop _ (.poll ready) => (ready.map (·.1)).Nodup
  | .loop _ (.userCall c _) => ∀ sc ∈ s.conns c, sc.tcp.state ≠ .kConnecting
  | .send _ _ buf => buf.content.length = buf.len
  | .dtor => (s.loops baseLoop).phase.inHandlers = false
  | _ => True

instance (s : Server k) : (e : Label k) → Decidable (s.Regular e)
  | .loop _ (.poll ready) => inferInstanceAs (Decidable (ready.map (·.1)).Nodup)
  | .loop _ (.userCall c _) =>
    inferInstanceAs (Decidable (∀ sc ∈ s.conns c, sc.tcp.state ≠ .kConnecting))
  | .send _ _ buf => inferInstanceAs (Decidable (buf.content.length = buf.len))
  | .dtor => inferInstanceAs (Decidable ((s.loops baseLoop).phase.inHandlers = false))
  | .loop _ .handle | .loop _ (.part _) | .loop _ .handled | .loop _ .startFunctors
  | .loop _ (.functor _ _) | .loop _ .endFunctors | .loop _ .exit | .accept _ _ _ _ _ _
  | .destroyLoop _ | .destroyConn _ _ | .dtorEnd | .hold _ _ | .drop _ _ | .sendQueue _
  | .shutdown _ _ | .shutdownStore _ | .shutdownQueue _ => inferInstanceAs (Decidable True)

theorem hasHome_loop {s : Server k} {ℓ : Fin (k + 1)} {c : ConnId} {sc : ServerConn k}
    (h : s.HasHome ℓ c) (hconn : s.conns c = some sc) : sc.loop = ℓ := by
  obtain ⟨sd, hsd, hloop⟩ := h
  rw [hconn] at hsd
  obtain rfl := Option.some.inj hsd
  exact hloop

theorem Keeps.hasHome {s s' : Server k} (h : Keeps s s') {ℓ : Fin (k + 1)} {c : ConnId}
    (hc : s.HasHome ℓ c) : s'.HasHome ℓ c := by
  rcases hc with ⟨sc, hsc, hloop⟩
  obtain ⟨sc', hsc'⟩ := h.created c sc hsc
  obtain ⟨sd, hsd, hsame⟩ := h.conn c sc' hsc'
  rw [hsc] at hsd
  obtain rfl := Option.some.inj hsd
  exact ⟨sc', hsc', hsame.loop.trans hloop⟩

/-- Pollers and channels are as before. -/
theorem Watched.mono {s s' : Server k} (h : s.Watched)
    (hpoller : ∀ ℓ, (s'.loops ℓ).poller = (s.loops ℓ).poller)
    (hconns : ∀ c sc, s.conns c = some sc →
      ∃ sc', s'.conns c = some sc' ∧ sc'.loop = sc.loop ∧ sc'.tcp.channel = sc.tcp.channel) :
    s'.Watched := by
  intro ℓ fd r hr
  rw [hpoller] at hr
  obtain ⟨sc, hsc, hloop, hfd, hindex⟩ := h ℓ fd r hr
  obtain ⟨sc', hsc', hloop', hchannel⟩ := hconns _ sc hsc
  refine ⟨sc', hsc', hloop'.trans hloop, ?_, ?_⟩
  · rw [hchannel, hfd]
  · rw [hchannel, hindex]

theorem Keeps.homeFunctor {s s' : Server k} (h : Keeps s s') {ℓ : Fin (k + 1)}
    {f : BoundFunctor} (hf : s.HomeFunctor ℓ f) : s'.HomeFunctor ℓ f := by
  rcases hf with hremove | hhome
  · exact Or.inl hremove
  · exact Or.inr (h.hasHome hhome)

/-! ## What steps add -/

/-- Pollers, active channels and queues take in only what is at home. -/
structure Tidy (s s' : Server k) : Prop where
  watched : s.Watched → s'.Watched
  active : ∀ ℓ, (s'.loops ℓ).phase.channels.Sublist (s.loops ℓ).phase.channels ∨
    (s'.loops ℓ).phase.channels.Nodup ∧ ∀ c ∈ (s'.loops ℓ).phase.channels, s.HasHome ℓ c
  queued : ∀ ℓ, ∀ f ∈ (s'.loops ℓ).queue, f ∈ (s.loops ℓ).queue ∨ s.HomeFunctor ℓ f

theorem tidy_of_loops {s s' : Server k} (h : s'.loops = s.loops)
    (hconns : ∀ c sc, s.conns c = some sc →
      ∃ sc', s'.conns c = some sc' ∧ sc'.loop = sc.loop ∧ sc'.tcp.channel = sc.tcp.channel) :
    Tidy s s' where
  watched hs := by
    refine hs.mono ?_ hconns
    intro ℓ
    rw [h]
  active ℓ := by
    rw [h]
    exact Or.inl (List.Sublist.refl _)
  queued ℓ f hf := by
    rw [h] at hf
    exact Or.inl hf

theorem tidy_of_eq {s s' : Server k} (h : s'.loops = s.loops) (hconns : s'.conns = s.conns) :
    Tidy s s' := by
  refine tidy_of_loops h ?_
  intro c sc hsc
  exact ⟨sc, by rw [hconns, hsc], rfl, rfl⟩

theorem Tidy.trans {s s' s'' : Server k} (h : Tidy s s') (h' : Tidy s' s'')
    (hback : ∀ c sc', s'.conns c = some sc' → ∃ sc, s.conns c = some sc ∧ SameConn sc sc') :
    Tidy s s'' := by
  have hhome : ∀ {ℓ c}, s'.HasHome ℓ c → s.HasHome ℓ c := by
    rintro ℓ c ⟨sc', hsc', hloop⟩
    obtain ⟨sc, hsc, hsame⟩ := hback c sc' hsc'
    exact ⟨sc, hsc, hsame.loop.symm.trans hloop⟩
  refine ⟨fun hs => h'.watched (h.watched hs), ?_, ?_⟩
  · intro ℓ
    rcases h'.active ℓ with hsub' | ⟨hnodup, hhomes⟩
    · rcases h.active ℓ with hsub | ⟨hnodup, hhomes⟩
      · exact Or.inl (hsub'.trans hsub)
      · exact Or.inr ⟨hnodup.sublist hsub', fun c hc => hhomes c (hsub'.subset hc)⟩
    · exact Or.inr ⟨hnodup, fun c hc => hhome (hhomes c hc)⟩
  · intro ℓ f hf
    rcases h'.queued ℓ f hf with hf | hremove | hf
    · exact h.queued ℓ f hf
    · exact Or.inr (Or.inl hremove)
    · exact Or.inr (Or.inr (hhome hf))

theorem setLoop_tidy {s : Server k} {ℓ : Fin (k + 1)} {l : ServerLoop}
    (hpoller : l.poller = (s.loops ℓ).poller)
    (hactive : l.phase.channels.Sublist (s.loops ℓ).phase.channels ∨
      l.phase.channels.Nodup ∧ ∀ c ∈ l.phase.channels, s.HasHome ℓ c)
    (hqueue : ∀ f ∈ l.queue, f ∈ (s.loops ℓ).queue ∨ s.HomeFunctor ℓ f) :
    Tidy s (s.setLoop ℓ l) := by
  constructor
  · intro hs
    refine hs.mono ?_ fun c sc hsc => ⟨sc, hsc, rfl, rfl⟩
    intro ℓ'
    by_cases hℓ : ℓ' = ℓ
    · rw [hℓ, setLoop_loops_self, hpoller]
    · rw [setLoop_loops_ne s l hℓ]
  · intro ℓ'
    by_cases hℓ : ℓ' = ℓ
    · subst hℓ
      rw [setLoop_loops_self]
      exact hactive
    · rw [setLoop_loops_ne s l hℓ]
      exact Or.inl (List.Sublist.refl _)
  · intro ℓ' f hf
    by_cases hℓ : ℓ' = ℓ
    · subst hℓ
      rw [setLoop_loops_self] at hf
      exact hqueue f hf
    · rw [setLoop_loops_ne s l hℓ] at hf
      exact Or.inl hf

/-- A change of phase: no channel becomes active, no functor comes to the batch. -/
theorem setPhase_tidy {s : Server k} {ℓ : Fin (k + 1)} {p : Phase}
    (hactive : p.channels.Sublist (s.loops ℓ).phase.channels)
    (hrest : ∀ f ∈ p.rest, f ∈ (s.loops ℓ).phase.rest) : Tidy s (s.setPhase ℓ p) := by
  refine setLoop_tidy rfl (Or.inl hactive) ?_
  intro f hf
  rcases List.mem_append.mp hf with hf | hf
  · exact Or.inl (List.mem_append_left _ (hrest f hf))
  · exact Or.inl (List.mem_append_right _ hf)

theorem queueInLoop_tidy {s : Server k} {ℓ : Fin (k + 1)} {f : BoundFunctor}
    (hf : s.HomeFunctor ℓ f) : Tidy s (s.queueInLoop ℓ f) := by
  refine setLoop_tidy rfl (Or.inl (List.Sublist.refl _)) ?_
  intro g hg
  rcases List.mem_append.mp hg with hg | hg
  · exact Or.inl (List.mem_append_left _ hg)
  · rcases List.mem_append.mp hg with hg | hg
    · exact Or.inl (List.mem_append_right _ hg)
    · rw [List.mem_singleton.mp hg]
      exact Or.inr hf

theorem removeConnectionInLoop_tidy (s : Server k) (c : ConnId) :
    Tidy s (s.removeConnectionInLoop c) := by
  unfold removeConnectionInLoop
  split
  · rename_i sc hconn
    have hqueue : Tidy (s.eraseConnection sc.name)
        ((s.eraseConnection sc.name).queueInLoop sc.loop ⟨c, .connectDestroyed⟩) :=
      queueInLoop_tidy (Or.inr ⟨sc, hconn, rfl⟩)
    have herase : Tidy s (s.eraseConnection sc.name) := tidy_of_eq rfl rfl
    exact herase.trans hqueue fun d sd hsd => ⟨sd, hsd, SameConn.refl sd⟩
  · exact tidy_of_eq rfl rfl

/-- What an operation registers is its own channel. -/
theorem onConn_watched {s : Server k} (hs : s.Ids) (h : s.Watched) {c : ConnId}
    {sc : ServerConn k} (hconn : s.conns c = some sc) {op : Conn → Conn}
    (hop : Conn.OwnOp op) : (s.onConn c op).Watched := by
  have hreplay := onConn_cases hconn op
  have hreg := hop.registers (s.assemble sc)
  have hid : sc.tcp.channel.self = c := (hs.conn c sc hconn).2.2
  have hself := onConn_conns_self hconn op
  -- a registration of `c` is in its own loop, under its own descriptor
  have hown : ∀ ℓ fd r, (s.loops ℓ).poller.epoll fd = some r → r.ptr = c →
      ℓ = sc.loop ∧ fd = sc.tcp.channel.fd ∧ sc.tcp.channel.index = .added := by
    intro ℓ fd r hr hptr
    obtain ⟨sd, hsd, hloop, hfd, hindex⟩ := h ℓ fd r hr
    rw [hptr, hconn] at hsd
    obtain rfl := Option.some.inj hsd
    exact ⟨hloop.symm, hfd.symm, hindex⟩
  have hwatched : (op (s.assemble sc)).Watched := by
    apply hreg.watched
    intro r hr hptr
    exact (hown sc.loop _ r hr (hptr.trans hid)).2.2
  have hold : ∀ ℓ fd r, (s.loops ℓ).poller.epoll fd = some r → r.ptr ≠ c →
      ∃ sd, (s.onConn c op).conns r.ptr = some sd ∧ sd.loop = ℓ ∧ sd.tcp.channel.fd = fd ∧
        sd.tcp.channel.index = .added := by
    intro ℓ fd r hr hptr
    obtain ⟨sd, hsd, hin⟩ := h ℓ fd r hr
    exact ⟨sd, by rw [onConn_conns_ne hconn op hptr, hsd], hin⟩
  intro ℓ fd r hr
  rw [hreplay.poller] at hr
  by_cases hℓ : ℓ = sc.loop
  · subst hℓ
    rw [store_poller_self] at hr
    by_cases hptr : r.ptr = c
    · have hfd : fd = (op (s.assemble sc)).tcp.channel.fd := by
        rw [hreg.fd]
        rcases hreg.epoll fd r hr with hr | ⟨hfd, _⟩
        · exact (hown _ fd r hr hptr).2.1
        · exact hfd
      rw [hptr, hself]
      refine ⟨_, rfl, rfl, hfd.symm, ?_⟩
      rw [hfd] at hr
      exact hwatched r hr (hptr.trans (hid.symm.trans hreg.self.symm))
    · rcases hreg.epoll fd r hr with hr | ⟨_, hptr'⟩
      · exact hold _ fd r hr hptr
      · exact absurd (hptr'.trans hid) hptr
  · rw [store_poller_ne s c _ hℓ] at hr
    by_cases hptr : r.ptr = c
    · exact absurd (hown ℓ fd r hr hptr).1 hℓ
    · exact hold ℓ fd r hr hptr

/-- The functors of an operation are bound to its connection. -/
theorem onConn_tidy {s : Server k} (hs : s.Ids) (c : ConnId) {op : Conn → Conn}
    (hop : Conn.OwnOp op) : Tidy s (s.onConn c op) := by
  cases hconn : s.conns c with
  | none =>
    rw [onConn_of_none hconn]
    exact tidy_of_eq rfl rfl
  | some sc =>
    have hreplay := onConn_cases hconn op
    refine ⟨fun h => onConn_watched hs h hconn hop, ?_, ?_⟩
    · intro ℓ
      rw [onConn_phase]
      exact Or.inl (List.Sublist.refl _)
    · intro ℓ f hf
      rcases List.mem_append.mp hf with hf | hf
      · rw [onConn_phase] at hf
        exact Or.inl (List.mem_append_left _ hf)
      · rcases (hreplay.pending ℓ).mem_or hf with hf | ⟨hfc, ⟨hℓ, _⟩ | ⟨_, hremove⟩ | ⟨hℓ, _⟩⟩
        · rw [store_pending] at hf
          exact Or.inl (List.mem_append_right _ hf)
        · exact Or.inr (Or.inr ⟨sc, by rw [hfc, hconn], hℓ.symm⟩)
        · exact Or.inr (Or.inl hremove)
        · exact Or.inr (Or.inr ⟨sc, by rw [hfc, hconn], hℓ.symm⟩)

/-- A functor is an operation of its connection, or `removeConnectionInLoop`, or
user code. -/
theorem call_cases (s : Server k) (f : BoundFunctor) (mem : Nat → Byte) (a : Conn.Answers) :
    (∃ op, Conn.OwnOp op ∧ s.call f mem a = s.onConn f.conn op) ∨
      s.call f mem a = s.removeConnectionInLoop f.conn ∨ s.call f mem a = s := by
  unfold call
  split
  · exact Or.inl ⟨_, Conn.sendInLoop_ownOp _ _, rfl⟩
  · exact Or.inl ⟨_, Conn.shutdownInLoop_ownOp, rfl⟩
  · exact Or.inl ⟨_, Conn.connectEstablished_ownOp _, rfl⟩
  · exact Or.inl ⟨_, Conn.connectDestroyed_ownOp _, rfl⟩
  · exact Or.inr (Or.inl rfl)
  · exact Or.inr (Or.inr rfl)
  · exact Or.inr (Or.inr rfl)
  · exact Or.inr (Or.inr rfl)

theorem execute_tidy {s : Server k} (hs : s.Ids) (f : BoundFunctor) (mem : Nat → Byte)
    (a : Conn.Answers) : Tidy s (s.execute f mem a) := by
  unfold execute
  split
  · rcases s.call_cases f mem a with ⟨op, hop, heq⟩ | heq | heq
    · rw [heq]
      exact onConn_tidy hs f.conn hop
    · rw [heq]
      exact removeConnectionInLoop_tidy s f.conn
    · rw [heq]
      exact tidy_of_eq rfl rfl
  · exact tidy_of_eq rfl rfl

/-- What is reported active are connections of the loop. -/
theorem activeChannels_homed {s : Server k} (h : s.Homed) {ℓ : Fin (k + 1)}
    {ready : List (Nat × EventMask)} {p : ConnId × EventMask}
    (hp : p ∈ activeChannels (s.loops ℓ).poller ready) :
    ∃ sc fd r, s.conns p.1 = some sc ∧ sc.loop = ℓ ∧ (s.loops ℓ).poller.epoll fd = some r ∧
      r.ptr = p.1 := by
  obtain ⟨q, _, hq⟩ := List.mem_filterMap.mp hp
  obtain ⟨r, hr, rfl⟩ := Option.map_eq_some_iff.mp hq
  obtain ⟨sc, hsc, hloop, _⟩ := h.watched ℓ _ r hr
  exact ⟨sc, q.1, r, hsc, hloop, hr, rfl⟩

/-- Different descriptors are those of different connections. -/
theorem activeChannels_nodup {s : Server k} (h : s.Homed) (ℓ : Fin (k + 1))
    {ready : List (Nat × EventMask)} (hready : (ready.map (·.1)).Nodup) :
    ((activeChannels (s.loops ℓ).poller ready).map (·.1)).Nodup := by
  have hmap : (activeChannels (s.loops ℓ).poller ready).map (·.1) =
      (ready.map (·.1)).filterMap fun fd => ((s.loops ℓ).poller.epoll fd).map (·.ptr) := by
    rw [activeChannels, List.map_filterMap, List.filterMap_map]
    simp only [Option.map_map, Function.comp_def]
  rw [hmap]
  refine List.Nodup.filterMap ?_ hready
  intro fd fd' c hc hc'
  obtain ⟨r, hr, rfl⟩ := Option.map_eq_some_iff.mp hc
  obtain ⟨r', hr', hptr⟩ := Option.map_eq_some_iff.mp hc'
  obtain ⟨sc, hsc, _, hfd, _⟩ := h.watched ℓ fd r hr
  obtain ⟨sc', hsc', _, hfd', _⟩ := h.watched ℓ fd' r' hr'
  rw [hptr, hsc] at hsc'
  obtain rfl := Option.some.inj hsc'
  exact hfd.symm.trans hfd'

theorem setPhase_keeps {s : Server k} {ℓ : Fin (k + 1)} {p : Phase} {d : ConnId}
    {sd : ServerConn k} (h : (s.setPhase ℓ p).conns d = some sd) :
    ∃ sc, s.conns d = some sc ∧ SameConn sc sd := ⟨sd, h, SameConn.refl sd⟩

theorem LoopStep.tidy {s s' : Server k} (hs : s.Homed) {ℓ : Fin (k + 1)} {e : LoopLabel}
    (h : LoopStep s ℓ e s') (hregular : s.Regular (.loop ℓ e)) : Tidy s s' := by
  cases h with
  | poll ready hphase =>
    refine setLoop_tidy rfl (Or.inr ⟨activeChannels_nodup hs ℓ hregular, ?_⟩) ?_
    · intro c hc
      obtain ⟨p, hp, rfl⟩ := List.mem_map.mp hc
      obtain ⟨sc, _, _, hsc, hloop, _⟩ := activeChannels_homed hs hp
      exact ⟨sc, hsc, hloop⟩
    intro f hf
    exact Or.inl (List.mem_append_right _ hf)
  | handle c revents active hphase hheld =>
    refine setPhase_tidy ?_ ?_
    · rw [hphase]
      exact List.Sublist.refl _
    · exact List.forall_mem_nil _
  | handleDead c revents active hphase hdead =>
    refine setPhase_tidy ?_ ?_
    · rw [hphase]
      exact List.sublist_cons_self _ _
    · exact List.forall_mem_nil _
  | part c p rest active a hphase =>
    have hset : Tidy s (s.setPhase ℓ (.handling c rest active)) := by
      refine setPhase_tidy ?_ ?_
      · rw [hphase]
        exact List.Sublist.refl _
      · exact List.forall_mem_nil _
    have hids : (s.setPhase ℓ (.handling c rest active)).Ids :=
      (setPhase_passes (by rw [hphase]; rfl) (by rw [hphase]; rfl)).toKeeps.ids hs.ids
    exact hset.trans (onConn_tidy hids c (Conn.runPart_ownOp p a)) fun _ _ hd => setPhase_keeps hd
  | handled c active hphase =>
    refine setPhase_tidy ?_ ?_
    · rw [hphase]
      exact List.sublist_cons_self _ _
    · exact List.forall_mem_nil _
  | startFunctors hphase =>
    refine setLoop_tidy rfl (Or.inl (List.nil_sublist _)) ?_
    intro f hf
    rcases List.mem_append.mp hf with hf | hf
    · exact Or.inl (List.mem_append_right _ hf)
    · exact absurd hf List.not_mem_nil
  | functor done rest f mem a hphase =>
    have hset : Tidy s (s.setPhase ℓ (.functors (done ++ [f]) rest)) := by
      refine setPhase_tidy (List.nil_sublist _) ?_
      intro g hg
      rw [hphase]
      exact List.mem_cons_of_mem _ hg
    have hids : (s.setPhase ℓ (.functors (done ++ [f]) rest)).Ids :=
      (setPhase_passes (by rw [hphase]; simp [Phase.batch])
        (by rw [hphase]; rfl)).toKeeps.ids hs.ids
    exact hset.trans (execute_tidy hids f mem a) fun _ _ hd => setPhase_keeps hd
  | endFunctors done hphase =>
    exact setPhase_tidy (List.nil_sublist _) (List.forall_mem_nil _)
  | userCall c u hpolling hexited hlives =>
    exact onConn_tidy hs.ids c (Conn.userCall_ownOp u)
  | exit hphase =>
    exact setPhase_tidy (List.nil_sublist _) (List.forall_mem_nil _)

theorem destroyConnection_tidy {s : Server k} (hs : s.Ids) (name : List Char) {c : ConnId}
    {sc : ServerConn k} (hconn : s.conns c = some sc) (us : List UserCall) :
    Tidy s (s.destroyConnection name c sc us) := by
  have herase : Tidy s (s.eraseConnection name) := tidy_of_eq rfl rfl
  have hback : ∀ d sd, (s.eraseConnection name).conns d = some sd →
      ∃ sc, s.conns d = some sc ∧ SameConn sc sd :=
    fun d sd hsd => ⟨sd, hsd, SameConn.refl sd⟩
  have hids : (s.eraseConnection name).Ids := by
    refine { counter := hs.counter, conn := hs.conn, table := ?_, created := ?_ }
    · intro p hp
      exact hs.table p (List.mem_of_mem_filter hp)
    · intro d hd
      exact hs.created d (held_of_eraseConnection hd)
  unfold destroyConnection
  split
  · exact herase.trans (onConn_tidy hids c (Conn.connectDestroyed_ownOp us)) hback
  · exact herase.trans (queueInLoop_tidy (Or.inr ⟨sc, hconn, rfl⟩)) hback

theorem queueForConn_tidy (s : Server k) (f : BoundFunctor) : Tidy s (s.queueForConn f) := by
  unfold queueForConn
  split
  · rename_i sc hconn
    exact queueInLoop_tidy (Or.inr ⟨sc, hconn, rfl⟩)
  · exact tidy_of_eq rfl rfl

theorem storeDisconnecting_tidy (s : Server k) (c : ConnId) : Tidy s (s.storeDisconnecting c) := by
  unfold storeDisconnecting
  split
  · rename_i sc hconn
    refine tidy_of_loops rfl ?_
    intro d sd hsd
    by_cases heq : d = c
    · subst heq
      rw [hconn] at hsd
      obtain rfl := Option.some.inj hsd
      exact ⟨_, Function.update_self _ _ _, rfl, rfl⟩
    · exact ⟨sd, (Function.update_of_ne heq _ _).trans hsd, rfl, rfl⟩
  · exact tidy_of_eq rfl rfl

/-- Every step but an `accept`. -/
theorem Step.tidy {s s' : Server k} (hs : s.Homed) {e : Label k} (h : Step s e s')
    (hregular : s.Regular e)
    (haccept : ∀ fd ioLoop wc hw mark us, e ≠ .accept fd ioLoop wc hw mark us) : Tidy s s' := by
  cases h with
  | loop ℓ e hfree hstep => exact hstep.tidy hs hregular
  | accept fd ioLoop wc hw mark us _ => exact absurd rfl (haccept fd ioLoop wc hw mark us)
  | destroyLoop ℓ hphase =>
    refine setLoop_tidy rfl (Or.inl (List.Sublist.refl _)) ?_
    intro f hf
    rcases List.mem_append.mp hf with hf | hf
    · exact Or.inl (List.mem_append_left _ hf)
    · exact absurd hf List.not_mem_nil
  | destroyConn name us c sc hlife hlookup hconn =>
    exact destroyConnection_tidy hs.ids name hconn us
  | sendQueue tid c buf hcall =>
    exact (queueForConn_tidy s _).trans (tidy_of_eq rfl rfl)
      (queueForConn_passes (f := ⟨c, .sendInLoop buf⟩) rfl).conn
  | shutdownStore tid c hcall =>
    exact (storeDisconnecting_tidy s c).trans (tidy_of_eq rfl rfl)
      (storeDisconnecting_passes s c).conn
  | shutdownQueue tid c hcall =>
    exact (queueForConn_tidy s _).trans (tidy_of_eq rfl rfl)
      (queueForConn_passes (f := ⟨c, .shutdownInLoop⟩) rfl).conn
  | dtor | dtorEnd | hold | drop | send | shutdown => exact tidy_of_eq rfl rfl

/-! ## A new connection -/

theorem Ids.ne_next {s : Server k} (hs : s.Ids) {c : ConnId} {sc : ServerConn k}
    (hconn : s.conns c = some sc) : c ≠ s.nextConnId :=
  Nat.ne_of_lt (hs.conn c sc hconn).1

theorem addConnection_homed {s : Server k} (h : s.Homed) {fd : Nat} (hcan : s.CanAccept fd)
    (ioLoop : Fin (k + 1)) (wc hw : Bool) (mark : Nat) :
    (s.addConnection fd ioLoop wc hw mark).Homed := by
  obtain ⟨_, _, hlife, hcounter, _⟩ := hcan
  have hkeep : ∀ c sc, s.conns c = some sc →
      (s.addConnection fd ioLoop wc hw mark).conns c = some sc := by
    intro c sc hsc
    rw [addConnection_conns_ne (h.ids.ne_next hsc), hsc]
  have hhome : ∀ {ℓ c}, s.HasHome ℓ c → (s.addConnection fd ioLoop wc hw mark).HasHome ℓ c := by
    rintro ℓ c ⟨sc, hsc, hloop⟩
    exact ⟨sc, hkeep c sc hsc, hloop⟩
  refine
    { ids := addConnection_ids h.ids hcounter fd ioLoop wc hw mark
      called := ?_
      away := ?_
      watched := h.watched.mono (fun _ => rfl) fun c sc hsc => ⟨sc, hkeep c sc hsc, rfl, rfl⟩
      active := fun ℓ c hc => hhome (h.active ℓ c hc)
      once := h.once
      queued := ?_ }
  · intro tid htid
    obtain ⟨sc, hsc⟩ := h.called tid htid
    exact ⟨sc, hkeep _ sc hsc⟩
  · intro hdestroying
    have halive : (s.addConnection fd ioLoop wc hw mark).lifetime = .alive := hlife
    rw [halive] at hdestroying
    cases hdestroying
  · intro ℓ f hf
    rcases h.queued ℓ f hf with hremove | hf
    · exact Or.inl hremove
    · exact Or.inr (hhome hf)

theorem newConnection_tidy {s : Server k} (h : s.Homed) {fd : Nat} (hcan : s.CanAccept fd)
    (ioLoop : Fin (k + 1)) (wc hw : Bool) (mark : Nat) (us : List UserCall) :
    Tidy (s.addConnection fd ioLoop wc hw mark) (s.newConnection fd ioLoop wc hw mark us) := by
  have hadded := addConnection_homed h hcan ioLoop wc hw mark
  unfold newConnection
  split
  · exact onConn_tidy hadded.ids _ (Conn.connectEstablished_ownOp us)
  · exact queueInLoop_tidy
      (Or.inr ⟨_, addConnection_conns_self s fd ioLoop wc hw mark, rfl⟩)

/-! ## Runs -/

theorem Called.mono {s s' : Server k} (h : s.Called) (hkeeps : Keeps s s')
    (hcalls : s'.calls = s.calls) : s'.Called := by
  intro tid htid
  rw [hcalls] at htid ⊢
  obtain ⟨sc, hsc⟩ := h tid htid
  exact hkeeps.created _ sc hsc

theorem Called.setCall {s : Server k} (h : s.Called) (tid : Nat) {call : Call}
    (hcall : call.pc ≠ .idle → ∃ sc, s.conns call.conn = some sc) :
    (s.setCall tid call).Called := by
  intro tid' htid'
  by_cases heq : tid' = tid
  · subst heq
    simp only [Server.setCall, Function.update_self] at htid' ⊢
    exact hcall htid'
  · simp only [Server.setCall, Function.update_of_ne heq] at htid' ⊢
    exact h tid' htid'

theorem Step.called {s s' : Server k} (hs : s.Homed) {e : Label k} (h : Step s e s')
    (hkeeps : Keeps s s')
    (haccept : ∀ fd ioLoop wc hw mark us, e ≠ .accept fd ioLoop wc hw mark us) : s'.Called := by
  have hidle : ∀ {c : ConnId} {t : Server k}, (Call.mk c .idle).pc ≠ .idle →
      ∃ sc, t.conns c = some sc := fun hne => absurd rfl hne
  cases h with
  | loop ℓ e hfree hstep => exact hs.called.mono hkeeps hstep.threads.calls
  | accept fd ioLoop wc hw mark us _ => exact absurd rfl (haccept fd ioLoop wc hw mark us)
  | destroyConn name us c sc hlife hlookup hconn =>
    exact hs.called.mono hkeeps (destroyConnection_threads s name c sc us).calls
  | destroyLoop | dtor | dtorEnd | hold | drop => exact hs.called
  | send tid c buf hidle huser hstate =>
    obtain ⟨sc, hsc, _⟩ := hstate
    exact hs.called.setCall tid fun _ => ⟨sc, hsc⟩
  | shutdown tid c hidle huser hstate =>
    obtain ⟨sc, hsc, _⟩ := hstate
    exact hs.called.setCall tid fun _ => ⟨sc, hsc⟩
  | sendQueue tid c buf hcall =>
    have hqueued := hs.called.mono (queueForConn_passes (f := ⟨c, .sendInLoop buf⟩) rfl).toKeeps
      (queueForConn_threads s _).calls
    exact hqueued.setCall tid hidle
  | shutdownStore tid c hcall =>
    have hstored := hs.called.mono (storeDisconnecting_passes s c).toKeeps
      (storeDisconnecting_threads s c).calls
    refine hstored.setCall tid fun _ => ?_
    have hcreated := hs.called tid (by simp [hcall])
    rw [hcall] at hcreated
    obtain ⟨sc, hsc⟩ := hcreated
    exact (storeDisconnecting_passes s c).created c sc hsc
  | shutdownQueue tid c hcall =>
    have hqueued := hs.called.mono (queueForConn_passes (f := ⟨c, .shutdownInLoop⟩) rfl).toKeeps
      (queueForConn_threads s _).calls
    exact hqueued.setCall tid hidle

theorem Tidy.homed {s s' : Server k} (h : Tidy s s') (hkeeps : Keeps s s') (hs : s.Homed)
    (hcalled : s'.Called)
    (haway : s'.lifetime = .destroying → (s'.loops baseLoop).phase.inHandlers = false) :
    s'.Homed where
  ids := hkeeps.ids hs.ids
  called := hcalled
  away := haway
  watched := h.watched hs.watched
  active ℓ c hc := by
    rcases h.active ℓ with hsub | ⟨_, hhomes⟩
    · exact hkeeps.hasHome (hs.active ℓ c (hsub.subset hc))
    · exact hkeeps.hasHome (hhomes c hc)
  once ℓ := by
    rcases h.active ℓ with hsub | ⟨hnodup, _⟩
    · exact (hs.once ℓ).sublist hsub
    · exact hnodup
  queued ℓ f hf := by
    rcases h.queued ℓ f hf with hf | hf
    · exact hkeeps.homeFunctor (hs.queued ℓ f hf)
    · exact hkeeps.homeFunctor hf

/-- The base loop stands still while `~TcpServer` runs in its thread. -/
theorem LoopStep.away {s s' : Server k} (hs : s.Homed) {ℓ : Fin (k + 1)} {e : LoopLabel}
    (hfree : s.LoopFree ℓ) (h : LoopStep s ℓ e s') (hlife : s'.lifetime = .destroying) :
    (s'.loops baseLoop).phase.inHandlers = false := by
  rw [h.threads.lifetime] at hlife
  have hne : baseLoop ≠ ℓ := by
    intro heq
    exact hfree heq.symm hlife
  rw [h.phase_ne hne]
  exact hs.away hlife

theorem Step.away {s s' : Server k} (hs : s.Homed) {e : Label k} (h : Step s e s')
    (hregular : s.Regular e) (hlife : s'.lifetime = .destroying) :
    (s'.loops baseLoop).phase.inHandlers = false := by
  cases h with
  | loop ℓ e hfree hstep => exact hstep.away hs hfree hlife
  | accept fd ioLoop wc hw mark us hcan =>
    rw [(newConnection_threads s fd ioLoop wc hw mark us).lifetime, hcan.2.2.1] at hlife
    cases hlife
  | destroyLoop ℓ hphase =>
    have hloops : (s.setLoop ℓ { s.loops ℓ with pending := [] }).loops baseLoop =
          { s.loops baseLoop with pending := [] } ∨
        (s.setLoop ℓ { s.loops ℓ with pending := [] }).loops baseLoop = s.loops baseLoop := by
      by_cases hℓ : baseLoop = ℓ
      · subst hℓ
        exact Or.inl (setLoop_loops_self _ _ _)
      · exact Or.inr (setLoop_loops_ne s _ hℓ)
    rcases hloops with heq | heq
    · rw [heq]
      exact hs.away hlife
    · rw [heq]
      exact hs.away hlife
  | dtor hlife' => exact hregular
  | destroyConn name us c sc hlife' hlookup hconn =>
    rw [destroyConnection_phase]
    exact hs.away hlife'
  | dtorEnd hlife' hempty => cases hlife
  | sendQueue tid c buf hcall =>
    have hphase : ((s.queueForConn ⟨c, .sendInLoop buf⟩).loops baseLoop).phase =
        (s.loops baseLoop).phase := queueForConn_phase s _ _
    have hsame := (queueForConn_threads s ⟨c, .sendInLoop buf⟩).lifetime
    exact hphase.symm ▸ hs.away (hsame.symm.trans hlife)
  | shutdownStore tid c hcall =>
    have hphase : ((s.storeDisconnecting c).loops baseLoop).phase = (s.loops baseLoop).phase :=
      storeDisconnecting_phase s _ _
    have hsame := (storeDisconnecting_threads s c).lifetime
    exact hphase.symm ▸ hs.away (hsame.symm.trans hlife)
  | shutdownQueue tid c hcall =>
    have hphase : ((s.queueForConn ⟨c, .shutdownInLoop⟩).loops baseLoop).phase =
        (s.loops baseLoop).phase := queueForConn_phase s _ _
    have hsame := (queueForConn_threads s ⟨c, .shutdownInLoop⟩).lifetime
    exact hphase.symm ▸ hs.away (hsame.symm.trans hlife)
  | hold | drop | send | shutdown => exact hs.away hlife

theorem Step.homed {s s' : Server k} (hs : s.Homed) {e : Label k} (h : Step s e s')
    (hregular : s.Regular e) : s'.Homed := by
  by_cases haccept : ∀ fd ioLoop wc hw mark us, e ≠ .accept fd ioLoop wc hw mark us
  · have hkeeps := (h.outcome hs.ids haccept).toKeeps
    exact (h.tidy hs hregular haccept).homed hkeeps hs (h.called hs hkeeps haccept)
      (h.away hs hregular)
  · push Not at haccept
    obtain ⟨fd, ioLoop, wc, hw, mark, us, rfl⟩ := haccept
    have haway := h.away hs hregular
    cases h with
    | accept fd ioLoop wc hw mark us hcan =>
      have hpasses := newConnection_passes hs.ids hcan.2.2.2.1 fd ioLoop wc hw mark us
      have hadded := addConnection_homed hs hcan ioLoop wc hw mark
      have hcalled := hadded.called.mono hpasses.toKeeps
        (newConnection_threads s fd ioLoop wc hw mark us).calls
      exact (newConnection_tidy hs hcan ioLoop wc hw mark us).homed hpasses.toKeeps hadded
        hcalled haway

theorem Homed.step {s : Server k} (hs : s.Homed) (e : Label k) (hregular : s.Regular e) :
    (s.step e).Homed := by
  rcases step_cases s e with hstutter | hstep
  · rw [hstutter]
    exact hs
  · exact hstep.homed hs hregular

theorem init_homed (k : Nat) (name : List Char) (listenAddr : InetAddress) :
    (init k name listenAddr).Homed where
  ids := init_ids k name listenAddr
  called tid htid := absurd rfl htid
  away hlife := by cases hlife
  watched ℓ fd r hr := by cases hr
  active ℓ c hc := absurd hc List.not_mem_nil
  once _ := List.nodup_nil
  queued ℓ f hf := absurd hf List.not_mem_nil

end Server

end EchoServer
