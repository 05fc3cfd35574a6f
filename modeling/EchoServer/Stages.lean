import EchoServer.ServerInv

/-!
# The stages of a connection

A connection is first on its way to `connectEstablished`, which waits in its
loop; then up, owned by the table or by a waiting `connectDestroyed`; and last
gone, with its channel removed for good.

* `Stage.mono`: what other steps leave alone;
* `onConn_life`: an operation adds no `connectEstablished`, and erases the
  connection from the table only with `connectDestroyed` queued.
-/

namespace EchoServer

open Runs Trace

/-- `connectEstablished` or `connectDestroyed` of connection `c`. -/
def BoundFunctor.IsLife (c : ConnId) (f : BoundFunctor) : Prop :=
  f.conn = c ∧ (f.functor = .connectEstablished ∨ f.functor = .connectDestroyed)

instance (c : ConnId) (f : BoundFunctor) : Decidable (f.IsLife c) := by
  unfold BoundFunctor.IsLife
  infer_instance

/-- The waiting ones of them, in order. -/
def ServerLoop.life (l : ServerLoop) (c : ConnId) : List Functor :=
  (l.queue.filter fun f => f.IsLife c).map (·.functor)

namespace Server

variable {k : Nat}

/-- The table owns the connection, or a `connectDestroyed` that waits in its
loop does. -/
def Secured (s : Server k) (c : ConnId) (ℓ : Fin (k + 1)) : Prop :=
  s.Owns c .map ∨ .connectDestroyed ∈ (s.loops ℓ).life c

inductive Stage (s : Server k) (c : ConnId) (sc : ServerConn k) : Prop where
  | connecting (rest : List Functor) (hstate : sc.tcp.state = .kConnecting)
      (hindex : sc.tcp.channel.index = .new) (hloop : sc.loop ≠ 0)
      (hlife : (s.loops sc.loop).life c = .connectEstablished :: rest)
      (honce : .connectEstablished ∉ rest) (hsecured : s.Secured c sc.loop)
  | up (hstate : sc.tcp.state ≠ .kConnecting) (hindex : sc.tcp.channel.index ≠ .new)
      (hlife : .connectEstablished ∉ (s.loops sc.loop).life c) (hsecured : s.Secured c sc.loop)
  | gone (hstate : sc.tcp.state ≠ .kConnecting) (hconnected : sc.tcp.state ≠ .kConnected)
      (hindex : sc.tcp.channel.index = .new)
      (hlife : .connectEstablished ∉ (s.loops sc.loop).life c)

/-- In a running loop every connection is in one of the stages. -/
def Staged (s : Server k) : Prop :=
  ∀ c sc, s.conns c = some sc → s.Running sc.loop → s.Stage c sc

theorem mem_life {l : ServerLoop} {c : ConnId} {g : Functor} :
    g ∈ l.life c ↔
      ⟨c, g⟩ ∈ l.queue ∧ (g = .connectEstablished ∨ g = .connectDestroyed) := by
  simp only [ServerLoop.life, List.mem_map, List.mem_filter, decide_eq_true_eq]
  constructor
  · rintro ⟨f, ⟨hf, rfl, hlife⟩, rfl⟩
    exact ⟨hf, hlife⟩
  · rintro ⟨hmem, hlife⟩
    exact ⟨⟨c, g⟩, ⟨hmem, rfl, hlife⟩, rfl⟩

/-- A waiting `connectDestroyed` is an owner. -/
theorem Secured.held {s : Server k} {c : ConnId} {ℓ : Fin (k + 1)} (h : s.Secured c ℓ) :
    s.Held c := by
  rcases h with h | h
  · exact ⟨.map, h⟩
  · have hmem := (mem_life.mp h).1
    rcases List.mem_append.mp hmem with hmem | hmem
    · refine ⟨.batch ℓ, ⟨c, .connectDestroyed⟩, ?_, rfl, rfl⟩
      cases hphase : (s.loops ℓ).phase with
      | functors done rest =>
        rw [hphase] at hmem
        exact List.mem_append_right _ hmem
      | _ => simp [hphase, Phase.rest] at hmem
    · exact ⟨.pending ℓ, ⟨c, .connectDestroyed⟩, hmem, rfl, rfl⟩

theorem Staged.alive {s : Server k} (h : s.Staged) : s.Alive := by
  rintro ℓ c hrun ⟨sc, hsc, rfl, hindex⟩
  cases h c sc hsc hrun with
  | connecting rest hstate hnew => exact absurd hnew hindex
  | up hstate hin hlife hsecured => exact hsecured.held
  | gone hstate hconnected hnew => exact absurd hnew hindex

/-- What a step may do to a connection it is not about: queue `connectDestroyed`
and erase it from the table. -/
theorem Stage.mono {s s' : Server k} {c : ConnId} {sc : ServerConn k} (h : s.Stage c sc)
    {extra : List Functor}
    (hlife : (s'.loops sc.loop).life c = (s.loops sc.loop).life c ++ extra)
    (hextra : .connectEstablished ∉ extra)
    (hsecured : s.Owns c .map → s'.Secured c sc.loop) : s'.Stage c sc := by
  have hsec : s.Secured c sc.loop → s'.Secured c sc.loop := by
    rintro (hmap | hdestroy)
    · exact hsecured hmap
    · refine Or.inr ?_
      rw [hlife]
      exact List.mem_append_left _ hdestroy
  have hnot : .connectEstablished ∉ (s.loops sc.loop).life c →
      .connectEstablished ∉ (s'.loops sc.loop).life c := by
    intro hold hnew
    rw [hlife] at hnew
    rcases List.mem_append.mp hnew with hnew | hnew
    · exact hold hnew
    · exact hextra hnew
  cases h with
  | connecting rest hstate hindex hloop hold honce hs =>
    refine .connecting (rest ++ extra) hstate hindex hloop (by rw [hlife, hold]; rfl) ?_ (hsec hs)
    intro hmem
    rcases List.mem_append.mp hmem with hmem | hmem
    · exact honce hmem
    · exact hextra hmem
  | up hstate hindex hold hs => exact .up hstate hindex (hnot hold) (hsec hs)
  | gone hstate hconnected hindex hold => exact .gone hstate hconnected hindex (hnot hold)

/-- It need not queue anything. -/
theorem Stage.of_life_eq {s s' : Server k} {c : ConnId} {sc : ServerConn k} (h : s.Stage c sc)
    (hlife : (s'.loops sc.loop).life c = (s.loops sc.loop).life c)
    (hsecured : s.Owns c .map → s'.Secured c sc.loop) : s'.Stage c sc := by
  have happend : (s'.loops sc.loop).life c = (s.loops sc.loop).life c ++ [] := by
    rw [hlife, List.append_nil]
  exact h.mono happend (List.not_mem_nil) hsecured

/-! ## Queues -/

theorem life_queueInLoop {s : Server k} {ℓ ℓ' : Fin (k + 1)} {f : BoundFunctor} {c : ConnId} :
    ((s.queueInLoop ℓ f).loops ℓ').life c =
      (s.loops ℓ').life c ++ if ℓ' = ℓ ∧ f.IsLife c then [f.functor] else [] := by
  by_cases hℓ : ℓ' = ℓ
  · subst hℓ
    by_cases hlife : f.IsLife c
    · simp [queueInLoop, ServerLoop.life, ServerLoop.queue, List.filter_append, hlife]
    · simp [queueInLoop, ServerLoop.life, ServerLoop.queue, List.filter_append, hlife]
  · simp [queueInLoop, setLoop_loops_ne s _ hℓ, hℓ]

/-- Handing a connection over from the table to its loop, by
`removeConnectionInLoop` or by `~TcpServer`. -/
theorem erase_queue_stage {s : Server k} (hs : s.Ids) {c : ConnId} {sc : ServerConn k}
    (hconn : s.conns c = some sc) {d : ConnId} {sd : ServerConn k} (h : s.Stage d sd)
    (hd : s.conns d = some sd) :
    ((s.eraseConnection sc.name).queueInLoop sc.loop ⟨c, .connectDestroyed⟩).Stage d sd := by
  refine h.mono life_queueInLoop ?_ ?_
  · split
    · simp
    · simp
  · rintro ⟨p, hp, rfl⟩
    by_cases hname : p.1 = sc.name
    · have heq := hs.unique hconn hp hname
      rw [heq] at hd
      rw [hconn] at hd
      obtain rfl := Option.some.inj hd
      refine Or.inr ?_
      rw [life_queueInLoop, heq]
      simp [BoundFunctor.IsLife]
    · exact Or.inl ⟨p, List.mem_filter.mpr ⟨hp, by simpa using hname⟩, rfl⟩

/-- An operation queues no `connectEstablished`, and leaves a place in the table
only for a `connectDestroyed`. -/
theorem onConn_life {s : Server k} (hs : s.Ids) {c : ConnId} {sc : ServerConn k}
    (hconn : s.conns c = some sc) {op : Conn → Conn}
    (hqueued : ∀ f, .queueInLoop f ∈ (op (s.assemble sc)).trace → f.OwnThread)
    (d : ConnId) (sd : ServerConn k) (hd : s.conns d = some sd) :
    ∃ extra, ((s.onConn c op).loops sd.loop).life d = (s.loops sd.loop).life d ++ extra ∧
      .connectEstablished ∉ extra ∧ (s.Owns d .map → (s.onConn c op).Secured d sd.loop) := by
  have hreplay := onConn_cases hconn op
  obtain ⟨fs, hpending, hfs⟩ := hreplay.pending sd.loop
  rw [store_pending] at hpending
  refine ⟨(fs.filter fun f => f.IsLife d).map (·.functor), ?_, ?_, ?_⟩
  · simp [ServerLoop.life, ServerLoop.queue, onConn_phase, hpending, List.filter_append]
  · intro hmem
    obtain ⟨f, hf, heq⟩ := List.mem_map.mp hmem
    rcases (hfs f (List.mem_of_mem_filter hf)).2 with ⟨_, hin⟩ | ⟨_, hremove⟩ | ⟨_, hdestroy⟩
    · rcases hqueued _ hin with hcb | hsd
      · rw [heq] at hcb
        exact hcb
      · rw [heq] at hsd
        cases hsd
    · rw [heq] at hremove
      cases hremove
    · rw [heq] at hdestroy
      cases hdestroy
  · rintro ⟨p, hp, rfl⟩
    rcases hreplay.erased p hp with hp' | ⟨⟨sc', hsc', hname⟩, hqueue⟩
    · exact Or.inl ⟨p, hp', rfl⟩
    · rw [store_conns_self] at hsc'
      obtain rfl := Option.some.inj hsc'
      have heq := hs.unique hconn hp hname
      rw [heq, hconn] at hd
      obtain rfl := Option.some.inj hd
      refine Or.inr (mem_life.mpr ⟨List.mem_append_right _ ?_, Or.inr rfl⟩)
      rw [heq]
      exact hqueue

end Server

end EchoServer
