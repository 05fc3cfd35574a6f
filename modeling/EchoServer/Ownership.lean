import EchoServer.Locality
import EchoServer.Server

/-!
# Who keeps a connection alive

* `Ids`: connections are numbered and named, the table lists them under their
  own names, and only connections that were created have owners;
* `Keeps`: no connection is lost or revived; `Passes`: ownership is at most
  passed on. Replaying an operation passes ownership on (`onConn_passes`):
  `removeConnectionInLoop` gives the connection from the table to the queue of
  its loop;
* `newConnection_held`: a new connection is owned by the table, and nobody else
  loses an owner to it.
-/

namespace EchoServer

open Runs Trace

/-- The loop is an owner of the connection: by a functor or by a guard. -/
def ServerLoop.Owns (l : ServerLoop) (c : ConnId) : Prop :=
  (∃ f ∈ l.pending, f.Owns c) ∨ (∃ f ∈ l.phase.batch, f.Owns c) ∨ l.phase.guarded = some c

namespace Server

variable {k : Nat}

/-! ## Updating a loop -/

@[simp] theorem setLoop_loops_self (s : Server k) (ℓ : Fin (k + 1)) (l : ServerLoop) :
    (s.setLoop ℓ l).loops ℓ = l := by
  simp [setLoop]

theorem setLoop_loops_ne (s : Server k) (l : ServerLoop) {ℓ ℓ' : Fin (k + 1)} (h : ℓ' ≠ ℓ) :
    (s.setLoop ℓ l).loops ℓ' = s.loops ℓ' := by
  simp [setLoop, Function.update_of_ne h]

theorem held_of_loop {s : Server k} {ℓ : Fin (k + 1)} {c : ConnId} (h : (s.loops ℓ).Owns c) :
    s.Held c := by
  rcases h with h | h | h
  · exact ⟨.pending ℓ, h⟩
  · exact ⟨.batch ℓ, h⟩
  · exact ⟨.guard ℓ, h⟩

/-- An owner after the update is an old one or in the new loop. -/
theorem owns_of_setLoop {s : Server k} {ℓ : Fin (k + 1)} {l : ServerLoop} {c : ConnId}
    {o : Owner k} (h : (s.setLoop ℓ l).Owns c o) : s.Owns c o ∨ l.Owns c := by
  have hloop : ∀ ℓ', (s.setLoop ℓ l).loops ℓ' = s.loops ℓ' ∨ (s.setLoop ℓ l).loops ℓ' = l := by
    intro ℓ'
    by_cases hℓ : ℓ' = ℓ
    · exact Or.inr (by rw [hℓ, setLoop_loops_self])
    · exact Or.inl (setLoop_loops_ne s l hℓ)
  cases o with
  | map => exact Or.inl h
  | user tid => exact Or.inl h
  | pending ℓ' =>
    rcases hloop ℓ' with heq | heq
    · exact Or.inl (by simpa only [Owns, heq] using h)
    · exact Or.inr (Or.inl (by simpa only [Owns, heq] using h))
  | batch ℓ' =>
    rcases hloop ℓ' with heq | heq
    · exact Or.inl (by simpa only [Owns, heq] using h)
    · exact Or.inr (Or.inr (Or.inl (by simpa only [Owns, heq] using h)))
  | guard ℓ' =>
    rcases hloop ℓ' with heq | heq
    · exact Or.inl (by simpa only [Owns, heq] using h)
    · exact Or.inr (Or.inr (Or.inr (by simpa only [Owns, heq] using h)))

/-- An old owner stays unless it is in the replaced loop. -/
theorem owns_setLoop {s : Server k} {ℓ : Fin (k + 1)} (l : ServerLoop) {c : ConnId}
    {o : Owner k} (h : s.Owns c o) : (s.setLoop ℓ l).Owns c o ∨ (s.loops ℓ).Owns c := by
  have hback : (s.setLoop ℓ l).setLoop ℓ (s.loops ℓ) = s := by
    simp [setLoop]
  rw [← hback] at h
  exact owns_of_setLoop h

/-- The update that empties one part of a loop takes away that owner only. -/
theorem owns_setLoop_iff {s : Server k} {ℓ : Fin (k + 1)} {l : ServerLoop} {c : ConnId}
    {given : List (Owner k)}
    (hgiven : ∀ o ∈ given, o = .pending ℓ ∨ o = .batch ℓ ∨ o = .guard ℓ)
    (hpending : (∃ f ∈ l.pending, f.Owns c) ↔ s.Owns c (.pending ℓ) ∧ .pending ℓ ∉ given)
    (hbatch : (∃ f ∈ l.phase.batch, f.Owns c) ↔ s.Owns c (.batch ℓ) ∧ .batch ℓ ∉ given)
    (hguarded : l.phase.guarded = some c ↔ s.Owns c (.guard ℓ) ∧ .guard ℓ ∉ given)
    (o : Owner k) : (s.setLoop ℓ l).Owns c o ↔ s.Owns c o ∧ o ∉ given := by
  have hother : o ≠ .pending ℓ → o ≠ .batch ℓ → o ≠ .guard ℓ → o ∉ given := by
    intro hp hb hg hmem
    rcases hgiven o hmem with h | h | h
    · exact hp h
    · exact hb h
    · exact hg h
  cases o with
  | map =>
    have := hother (by simp) (by simp) (by simp)
    simp [this, Owns, setLoop]
  | user tid =>
    have := hother (by simp) (by simp) (by simp)
    simp [this, Owns, setLoop]
  | pending ℓ' =>
    by_cases hℓ : ℓ' = ℓ
    · subst hℓ
      simpa only [Owns, setLoop_loops_self] using hpending
    · have := hother (by simpa using hℓ) (by simp) (by simp)
      simp [this, Owns, setLoop_loops_ne s l hℓ]
  | batch ℓ' =>
    by_cases hℓ : ℓ' = ℓ
    · subst hℓ
      simpa only [Owns, setLoop_loops_self] using hbatch
    · have := hother (by simp) (by simpa using hℓ) (by simp)
      simp [this, Owns, setLoop_loops_ne s l hℓ]
  | guard ℓ' =>
    by_cases hℓ : ℓ' = ℓ
    · subst hℓ
      simpa only [Owns, setLoop_loops_self] using hguarded
    · have := hother (by simp) (by simp) (by simpa using hℓ)
      simp [this, Owns, setLoop_loops_ne s l hℓ]

/-! ## Queueing and erasing -/

/-- A queued functor adds itself as an owner, if it owns its connection. -/
theorem owns_push {l : ServerLoop} {f : BoundFunctor} {c : ConnId} :
    ({ l with pending := l.pending ++ [f] } : ServerLoop).Owns c ↔ l.Owns c ∨ f.Owns c := by
  simp only [ServerLoop.Owns, List.mem_append, List.mem_singleton]
  constructor
  · rintro (⟨g, hg | rfl, howns⟩ | h | h)
    · exact Or.inl (Or.inl ⟨g, hg, howns⟩)
    · exact Or.inr howns
    · exact Or.inl (Or.inr (Or.inl h))
    · exact Or.inl (Or.inr (Or.inr h))
  · rintro ((⟨g, hg, howns⟩ | h | h) | howns)
    · exact Or.inl ⟨g, Or.inl hg, howns⟩
    · exact Or.inr (Or.inl h)
    · exact Or.inr (Or.inr h)
    · exact Or.inl ⟨f, Or.inr rfl, howns⟩

theorem held_queueInLoop {s : Server k} {ℓ : Fin (k + 1)} {f : BoundFunctor} {c : ConnId} :
    (s.queueInLoop ℓ f).Held c ↔ s.Held c ∨ f.Owns c := by
  have hloop : ((s.queueInLoop ℓ f).loops ℓ).Owns c ↔ (s.loops ℓ).Owns c ∨ f.Owns c := by
    rw [queueInLoop, setLoop_loops_self]
    exact owns_push
  constructor
  · rintro ⟨o, ho⟩
    rcases owns_of_setLoop ho with ho | ho
    · exact Or.inl ⟨o, ho⟩
    · rcases owns_push.mp ho with ho | ho
      · exact Or.inl (held_of_loop ho)
      · exact Or.inr ho
  · rintro (⟨o, ho⟩ | ho)
    · rcases owns_setLoop _ ho with ho | ho
      · exact ⟨o, ho⟩
      · exact held_of_loop (hloop.mpr (Or.inl ho))
    · exact held_of_loop (hloop.mpr (Or.inr ho))

/-- Only the owner under the erased name is lost. -/
theorem held_of_eraseConnection {s : Server k} {name : List Char} {c : ConnId}
    (h : (s.eraseConnection name).Held c) : s.Held c := by
  obtain ⟨o, ho⟩ := h
  cases o with
  | map =>
    obtain ⟨p, hp, hc⟩ := ho
    exact ⟨.map, p, List.mem_of_mem_filter hp, hc⟩
  | user tid => exact ⟨.user tid, ho⟩
  | pending ℓ => exact ⟨.pending ℓ, ho⟩
  | batch ℓ => exact ⟨.batch ℓ, ho⟩
  | guard ℓ => exact ⟨.guard ℓ, ho⟩

theorem eraseConnection_owns {s : Server k} {name : List Char} {c : ConnId} {o : Owner k}
    (ho : s.Owns c o) :
    (s.eraseConnection name).Owns c o ∨ o = .map ∧ ∃ p ∈ s.connections, p.1 = name ∧ p.2 = c := by
  cases o with
  | map =>
    obtain ⟨p, hp, hc⟩ := ho
    by_cases hname : p.1 = name
    · exact Or.inr ⟨rfl, p, hp, hname, hc⟩
    · exact Or.inl ⟨p, List.mem_filter.mpr ⟨hp, by simpa using hname⟩, hc⟩
  | _ => exact Or.inl ho

/-! ## Numbers and names -/

structure Ids (s : Server k) : Prop where
  counter : s.nextConnId < 2 ^ 31
  conn : ∀ c sc, s.conns c = some sc →
    c < s.nextConnId ∧ sc.name = s.connName c ∧ sc.tcp.channel.self = c
  table : ∀ p ∈ s.connections, p.1 = s.connName p.2
  created : ∀ c, s.Held c → ∃ sc, s.conns c = some sc

/-- The table has no other connection under the name of `c`. -/
theorem Ids.unique {s : Server k} (h : s.Ids) {c : ConnId} {sc : ServerConn k}
    (hconn : s.conns c = some sc) {p : List Char × ConnId} (hp : p ∈ s.connections)
    (hname : p.1 = sc.name) : p.2 = c := by
  obtain ⟨sc', hsc'⟩ := h.created p.2 ⟨.map, p, hp, rfl⟩
  have hlt := Nat.lt_trans (h.conn _ _ hsc').1 h.counter
  have hlt' := Nat.lt_trans (h.conn _ _ hconn).1 h.counter
  refine connName_injective s.name s.listenAddr hlt hlt' ?_
  calc
    s.connName p.2 = p.1 := (h.table p hp).symm
    _ = sc.name := hname
    _ = s.connName c := (h.conn _ _ hconn).2.1

/-- The name of a connection stands for the connection. -/
theorem Ids.erase_name {s : Server k} (hs : s.Ids) {c : ConnId} {sc : ServerConn k}
    (hconn : s.conns c = some sc) :
    (s.connections.filter fun p => p.1 ≠ sc.name) = s.connections.filter fun p => p.2 ≠ c := by
  refine List.filter_congr ?_
  intro p hp
  have hiff : p.1 = sc.name ↔ p.2 = c := by
    constructor
    · exact hs.unique hconn hp
    · rintro rfl
      rw [hs.table p hp, (hs.conn _ _ hconn).2.1]
  simp [hiff]

/-- The name of the next connection is not in the table. -/
theorem Ids.name_fresh {s : Server k} (hs : s.Ids) {p : List Char × ConnId}
    (hp : p ∈ s.connections) : p.1 ≠ s.connName s.nextConnId := by
  intro heq
  rcases hs.created p.2 ⟨.map, p, hp, rfl⟩ with ⟨sc, hsc⟩
  have hlt := (hs.conn _ _ hsc).1
  have heq' : s.connName p.2 = s.connName s.nextConnId := (hs.table p hp).symm.trans heq
  have hid := connName_injective s.name s.listenAddr (Nat.lt_trans hlt hs.counter) hs.counter heq'
  exact Nat.ne_of_lt hlt hid

/-- The parts of a connection that never change. -/
structure SameConn (sc sc' : ServerConn k) : Prop where
  loop : sc'.loop = sc.loop
  name : sc'.name = sc.name
  fd : sc'.tcp.channel.fd = sc.tcp.channel.fd
  self : sc'.tcp.channel.self = sc.tcp.channel.self

theorem SameConn.refl (sc : ServerConn k) : SameConn sc sc := ⟨rfl, rfl, rfl, rfl⟩

theorem SameConn.trans {sc sc' sc'' : ServerConn k} (h : SameConn sc sc')
    (h' : SameConn sc' sc'') : SameConn sc sc'' :=
  ⟨h'.loop.trans h.loop, h'.name.trans h.name, h'.fd.trans h.fd, h'.self.trans h.self⟩

/-- The connections are the same, and none is revived. -/
structure Keeps (s s' : Server k) : Prop where
  names : s'.connName = s.connName
  counter : s'.nextConnId = s.nextConnId
  conn : ∀ c sc', s'.conns c = some sc' → ∃ sc, s.conns c = some sc ∧ SameConn sc sc'
  created : ∀ c sc, s.conns c = some sc → ∃ sc', s'.conns c = some sc'
  table : ∀ p ∈ s'.connections, p ∈ s.connections
  held : ∀ c, s'.Held c → s.Held c

theorem Keeps.trans {s s' s'' : Server k} (h : Keeps s s') (h' : Keeps s' s'') : Keeps s s'' where
  names := h'.names.trans h.names
  counter := h'.counter.trans h.counter
  conn c sc'' hc := by
    obtain ⟨sc', hsc', hsame'⟩ := h'.conn c sc'' hc
    obtain ⟨sc, hsc, hsame⟩ := h.conn c sc' hsc'
    exact ⟨sc, hsc, hsame.trans hsame'⟩
  created c sc hc := by
    obtain ⟨sc', hsc'⟩ := h.created c sc hc
    exact h'.created c sc' hsc'
  table p hp := h.table p (h'.table p hp)
  held c hc := h.held c (h'.held c hc)

theorem Keeps.ids {s s' : Server k} (h : Keeps s s') (hs : s.Ids) : s'.Ids where
  counter := by
    rw [h.counter]
    exact hs.counter
  conn c sc' hc := by
    obtain ⟨sc, hsc, hsame⟩ := h.conn c sc' hc
    rw [h.counter, h.names, hsame.name, hsame.self]
    exact hs.conn c sc hsc
  table p hp := by
    rw [h.names]
    exact hs.table p (h.table p hp)
  created c hc := by
    obtain ⟨sc, hsc⟩ := hs.created c (h.held c hc)
    exact h.created c sc hsc

/-- Besides, every connection that had an owner has one. -/
structure Passes (s s' : Server k) : Prop extends Keeps s s' where
  kept : ∀ c, s.Held c → s'.Held c

theorem Passes.trans {s s' s'' : Server k} (h : Passes s s') (h' : Passes s' s'') :
    Passes s s'' where
  toKeeps := h.toKeeps.trans h'.toKeeps
  kept c hc := h'.kept c (h.kept c hc)

/-- The connections are the same, and only owners of one of them come or go. -/
theorem passes_of_owns {s s' : Server k} (hconns : s'.conns = s.conns)
    (hnames : s'.connName = s.connName) (hcounter : s'.nextConnId = s.nextConnId)
    (htable : s'.connections = s.connections) (hheld : ∀ c, s'.Held c ↔ s.Held c) :
    Passes s s' where
  names := hnames
  counter := hcounter
  conn c sc' hc := ⟨sc', by rw [← hconns, hc], SameConn.refl sc'⟩
  created c sc hc := ⟨sc, by rw [hconns, hc]⟩
  table p hp := by
    rw [← htable]
    exact hp
  held c := (hheld c).mp
  kept c := (hheld c).mpr

theorem Passes.refl (s : Server k) : Passes s s :=
  passes_of_owns rfl rfl rfl rfl fun _ => Iff.rfl

/-- A loop is replaced by one that owns the same connections, or others that
exist. -/
theorem setLoop_passes {s : Server k} {ℓ : Fin (k + 1)} {l : ServerLoop}
    (hin : ∀ c, l.Owns c → s.Held c) (hout : ∀ c, (s.loops ℓ).Owns c → l.Owns c) :
    Passes s (s.setLoop ℓ l) := by
  refine passes_of_owns rfl rfl rfl rfl fun c => ⟨?_, ?_⟩
  · rintro ⟨o, ho⟩
    rcases owns_of_setLoop ho with ho | ho
    · exact ⟨o, ho⟩
    · exact hin c ho
  · rintro ⟨o, ho⟩
    rcases owns_setLoop l ho with ho | ho
    · exact ⟨o, ho⟩
    · refine held_of_loop (ℓ := ℓ) ?_
      rw [setLoop_loops_self]
      exact hout c ho

/-! ## Operations pass ownership on -/

theorem queueInLoop_passes {s : Server k} (ℓ : Fin (k + 1)) {f : BoundFunctor}
    (hf : ∀ c, f.Owns c → s.Held c) : Passes s (s.queueInLoop ℓ f) := by
  refine setLoop_passes ?_ fun c hc => owns_push.mpr (Or.inl hc)
  intro c hc
  rcases owns_push.mp hc with hc | hc
  · exact held_of_loop hc
  · exact hf c hc

/-- A functor of a connection that exists. -/
theorem queueInLoop_passes_of_held {s : Server k} {c : ConnId} (hheld : s.Held c)
    (ℓ : Fin (k + 1)) (f : Functor) : Passes s (s.queueInLoop ℓ ⟨c, f⟩) := by
  refine queueInLoop_passes ℓ ?_
  rintro c' ⟨rfl, _⟩
  exact hheld

/-- Erased from the table and queued in its loop, the connection has an owner
at any time. -/
theorem erase_queue_passes {s : Server k} (hs : s.Ids) {c : ConnId} {sc : ServerConn k}
    (hconn : s.conns c = some sc) (hheld : s.Held c) (ℓ : Fin (k + 1)) :
    Passes s ((s.eraseConnection sc.name).queueInLoop ℓ ⟨c, .connectDestroyed⟩) where
  names := rfl
  counter := rfl
  conn c sc' hc := ⟨sc', hc, SameConn.refl sc'⟩
  created c sc hc := ⟨sc, hc⟩
  table p hp := List.mem_of_mem_filter hp
  held c' hc' := by
    rcases held_queueInLoop.mp hc' with hc' | ⟨rfl, _⟩
    · exact held_of_eraseConnection hc'
    · exact hheld
  kept c' hc' := by
    obtain ⟨o, ho⟩ := hc'
    rcases eraseConnection_owns ho with ho | ⟨_, p, hp, hname, rfl⟩
    · exact held_queueInLoop.mpr (Or.inl ⟨o, ho⟩)
    · have hc := hs.unique hconn hp hname
      exact held_queueInLoop.mpr (Or.inr ⟨hc.symm, rfl⟩)

theorem removeConnectionInLoop_passes {s : Server k} (hs : s.Ids) {c : ConnId}
    (hheld : s.Held c) : Passes s (s.removeConnectionInLoop c) := by
  unfold removeConnectionInLoop
  split
  · rename_i sc hconn
    exact erase_queue_passes hs hconn hheld sc.loop
  · exact Passes.refl s

theorem replay_passes {s : Server k} (hs : s.Ids) {c : ConnId} (hheld : s.Held c)
    (ℓ : Fin (k + 1)) (e : Effect) : Passes s (replay c ℓ s e) := by
  cases e with
  | queueInLoop f => exact queueInLoop_passes_of_held hheld ℓ f
  | closeCallback =>
    simp only [replay, removeConnection]
    split
    · exact removeConnectionInLoop_passes hs hheld
    · exact queueInLoop_passes_of_held hheld 0 .removeConnectionInLoop
  | _ => exact Passes.refl s

theorem setConn_passes {s : Server k} {c : ConnId} {sc sc' : ServerConn k}
    (hconn : s.conns c = some sc) (hsame : SameConn sc sc') : Passes s (s.setConn c sc') where
  names := rfl
  counter := rfl
  conn d sd hd := by
    by_cases heq : d = c
    · subst heq
      have hsd : some sc' = some sd := by simpa [setConn] using hd
      obtain rfl := Option.some.inj hsd
      exact ⟨sc, hconn, hsame⟩
    · exact ⟨sd, by simpa [setConn, Function.update_of_ne heq] using hd, SameConn.refl sd⟩
  created d sd hd := by
    by_cases heq : d = c
    · subst heq
      exact ⟨sc', by simp [setConn]⟩
    · exact ⟨sd, by simpa [setConn, Function.update_of_ne heq] using hd⟩
  table p hp := hp
  held _ h := h
  kept _ h := h

theorem store_passes {s : Server k} {c : ConnId} {sc : ServerConn k} {r : Conn}
    (hconn : s.conns c = some sc) (hfd : r.tcp.channel.fd = sc.tcp.channel.fd)
    (hself : r.tcp.channel.self = sc.tcp.channel.self) : Passes s (s.store c sc r) := by
  have hset : Passes s (s.setConn c { sc with tcp := r.tcp }) :=
    setConn_passes hconn ⟨rfl, rfl, hfd, hself⟩
  exact hset.trans (setLoop_passes (fun c hc => held_of_loop hc) fun c hc => hc)

/-- An operation of a connection that exists. -/
theorem onConn_passes {s : Server k} (hs : s.Ids) {c : ConnId} (hheld : s.Held c)
    {op : Conn → Conn} (hop : ∀ d, Conn.Localized d (op d)) : Passes s (s.onConn c op) := by
  unfold onConn
  split
  · rename_i sc hconn
    have hid := hop (s.assemble sc)
    refine List.foldlRecOn (motive := Passes s) _ _ (store_passes hconn hid.fd hid.self) ?_
    intro t ht e _
    exact ht.trans (replay_passes (ht.ids hs) (ht.kept c hheld) sc.loop e)
  · exact Passes.refl s

/-! ## Destroying without a word -/

/-- An operation that neither queues a functor nor calls `closeCallback_`. -/
theorem onConn_eq_store {s : Server k} {c : ConnId} {sc : ServerConn k} {op : Conn → Conn}
    (hconn : s.conns c = some sc)
    (hsilent : ∀ e ∈ (op (s.assemble sc)).trace, ∀ t : Server k, replay c sc.loop t e = t) :
    s.onConn c op = s.store c sc (op (s.assemble sc)) := by
  simp only [onConn, hconn]
  refine List.foldlRecOn (motive := fun t => t = s.store c sc (op (s.assemble sc))) _ _ rfl ?_
  intro t ht e he
  rw [hsilent e he, ht]

/-- `connectDestroyed` leaves `connections_` and the queues alone. -/
theorem connectDestroyed_silent (s : Server k) (c : ConnId) (sc : ServerConn k)
    (us : List UserCall) :
    ∀ e ∈ ((s.assemble sc).connectDestroyed us).trace, ∀ t : Server k,
      replay c sc.loop t e = t := by
  intro e he t
  have hcases : (∃ st, e = .setState st) ∨ e = .down ∨ Conn.IsConsumed e ∨ e = .removeChannel := by
    unfold Conn.connectDestroyed Conn.connectDestroyedAfter at he
    split at he
    · rcases List.mem_append.mp he with he | he
      · rcases (Conn.notifyDown_onlyConsumes (s.assemble sc) us).trace.mem_or he with he | he
        · simp [assemble, Conn.disableAll] at he
          rcases he with rfl | rfl
          · exact Or.inl ⟨_, rfl⟩
          · exact Or.inr (Or.inl rfl)
        · exact Or.inr (Or.inr (Or.inl he))
      · exact Or.inr (Or.inr (Or.inr (List.mem_singleton.mp he)))
    · exact Or.inr (Or.inr (Or.inr (by simpa [assemble, Conn.removeChannel] using he)))
  rcases hcases with ⟨st, rfl⟩ | rfl | hconsumed | rfl
  · rfl
  · rfl
  · cases e with
    | consumed bytes => rfl
    | _ => exact hconsumed.elim
  · rfl

theorem onConn_connectDestroyed {s : Server k} {c : ConnId} {sc : ServerConn k}
    (hconn : s.conns c = some sc) (us : List UserCall) :
    s.onConn c (·.connectDestroyed us) =
      s.store c sc ((s.assemble sc).connectDestroyed us) :=
  onConn_eq_store hconn (connectDestroyed_silent s c sc us)

/-! ## A new connection -/

theorem Ids.fresh {s : Server k} (h : s.Ids) : s.conns s.nextConnId = none := by
  by_contra hsome
  obtain ⟨sc, hsc⟩ := Option.ne_none_iff_exists'.mp hsome
  exact Nat.lt_irrefl _ (h.conn _ _ hsc).1

theorem addConnection_conns_ne {s : Server k} {fd mark : Nat} {ioLoop : Fin (k + 1)}
    {wc hw : Bool} {c : ConnId} (hne : c ≠ s.nextConnId) :
    (s.addConnection fd ioLoop wc hw mark).conns c = s.conns c := by
  simp [addConnection, insertConnection, setConn, Function.update_of_ne hne]

theorem addConnection_conns_self (s : Server k) (fd : Nat) (ioLoop : Fin (k + 1)) (wc hw : Bool)
    (mark : Nat) :
    (s.addConnection fd ioLoop wc hw mark).conns s.nextConnId =
      some ⟨ioLoop, s.connName s.nextConnId, TcpConnection.new s.nextConnId fd wc hw mark⟩ := by
  simp [addConnection, insertConnection, setConn]

/-- The new entry replaces none. -/
theorem addConnection_owns_map {s : Server k} (hs : s.Ids) (fd : Nat) (ioLoop : Fin (k + 1))
    (wc hw : Bool) (mark : Nat) {c : ConnId} (h : s.Owns c .map) :
    (s.addConnection fd ioLoop wc hw mark).Owns c .map := by
  obtain ⟨p, hp, rfl⟩ := h
  have hname := hs.name_fresh hp
  exact ⟨p, List.mem_cons_of_mem _ (List.mem_filter.mpr ⟨hp, by simpa using hname⟩), rfl⟩

theorem addConnection_owns_new (s : Server k) (fd : Nat) (ioLoop : Fin (k + 1))
    (wc hw : Bool) (mark : Nat) :
    (s.addConnection fd ioLoop wc hw mark).Owns s.nextConnId .map :=
  ⟨(s.connName s.nextConnId, s.nextConnId), List.mem_cons_self, rfl⟩

theorem addConnection_held {s : Server k} (hs : s.Ids) (fd : Nat) (ioLoop : Fin (k + 1))
    (wc hw : Bool) (mark : Nat) (c : ConnId) :
    (s.addConnection fd ioLoop wc hw mark).Held c ↔ s.Held c ∨ c = s.nextConnId := by
  constructor
  · rintro ⟨o, ho⟩
    cases o with
    | map =>
      obtain ⟨p, hp, rfl⟩ := ho
      rcases List.mem_cons.mp hp with rfl | hp
      · exact Or.inr rfl
      · exact Or.inl ⟨.map, p, List.mem_of_mem_filter hp, rfl⟩
    | user tid => exact Or.inl ⟨.user tid, ho⟩
    | pending ℓ => exact Or.inl ⟨.pending ℓ, ho⟩
    | batch ℓ => exact Or.inl ⟨.batch ℓ, ho⟩
    | guard ℓ => exact Or.inl ⟨.guard ℓ, ho⟩
  · rintro (⟨o, ho⟩ | rfl)
    · cases o with
      | map => exact ⟨.map, addConnection_owns_map hs fd ioLoop wc hw mark ho⟩
      | user tid => exact ⟨.user tid, ho⟩
      | pending ℓ => exact ⟨.pending ℓ, ho⟩
      | batch ℓ => exact ⟨.batch ℓ, ho⟩
      | guard ℓ => exact ⟨.guard ℓ, ho⟩
    · exact ⟨.map, addConnection_owns_new s fd ioLoop wc hw mark⟩

theorem addConnection_ids {s : Server k} (hs : s.Ids) (hcounter : s.nextConnId + 1 < 2 ^ 31)
    (fd : Nat) (ioLoop : Fin (k + 1)) (wc hw : Bool) (mark : Nat) :
    (s.addConnection fd ioLoop wc hw mark).Ids where
  counter := hcounter
  conn c sc hc := by
    by_cases heq : c = s.nextConnId
    · subst heq
      rw [addConnection_conns_self] at hc
      obtain rfl := Option.some.inj hc
      exact ⟨Nat.lt_succ_self _, rfl, rfl⟩
    · rw [addConnection_conns_ne heq] at hc
      obtain ⟨hlt, hname, hself⟩ := hs.conn c sc hc
      exact ⟨Nat.lt_succ_of_lt hlt, hname, hself⟩
  table p hp := by
    rcases List.mem_cons.mp hp with rfl | hp
    · rfl
    · exact hs.table p (List.mem_of_mem_filter hp)
  created c hc := by
    by_cases heq : c = s.nextConnId
    · subst heq
      exact ⟨_, addConnection_conns_self s fd ioLoop wc hw mark⟩
    · rcases (addConnection_held hs fd ioLoop wc hw mark c).mp hc with hc | hc
      · rw [addConnection_conns_ne heq]
        exact hs.created c hc
      · exact absurd hc heq

/-- After the entry in the table, `newConnection` only passes on. -/
theorem newConnection_passes {s : Server k} (hs : s.Ids) (hcounter : s.nextConnId + 1 < 2 ^ 31)
    (fd : Nat) (ioLoop : Fin (k + 1)) (wc hw : Bool) (mark : Nat) (us : List UserCall) :
    Passes (s.addConnection fd ioLoop wc hw mark) (s.newConnection fd ioLoop wc hw mark us) := by
  have hids := addConnection_ids hs hcounter fd ioLoop wc hw mark
  have hheld : (s.addConnection fd ioLoop wc hw mark).Held s.nextConnId :=
    (addConnection_held hs fd ioLoop wc hw mark _).mpr (Or.inr rfl)
  unfold newConnection
  split
  · exact onConn_passes hids hheld fun d => Conn.connectEstablished_localized d us
  · exact queueInLoop_passes_of_held hheld ioLoop .connectEstablished

theorem newConnection_held {s : Server k} (hs : s.Ids) (hcounter : s.nextConnId + 1 < 2 ^ 31)
    (fd : Nat) (ioLoop : Fin (k + 1)) (wc hw : Bool) (mark : Nat) (us : List UserCall)
    (c : ConnId) :
    (s.newConnection fd ioLoop wc hw mark us).Held c ↔ s.Held c ∨ c = s.nextConnId := by
  have hpass := newConnection_passes hs hcounter fd ioLoop wc hw mark us
  rw [← addConnection_held hs fd ioLoop wc hw mark c]
  exact ⟨hpass.held c, hpass.kept c⟩

end Server

end EchoServer
