import EchoServer.ConnMirror

/-!
# Each connection of a server makes a run of its own

Whatever the others do: what a connection of a server goes through, from
`connectEstablished` on, is a run of a `World`, with the same trace.

* `newConnection_faithful`, `Step.faithful`: a connection is accepted, and goes on;
* `connections_make_world_runs`: so it is in every run.
-/

namespace EchoServer

open Runs Trace

namespace Server

variable {k : Nat}

/-! ## A new connection -/

/-- Nothing in the queues is bound to a connection that has not been created. -/
theorem Homed.fresh_functor {s : Server k} (hs : s.Homed) {c : ConnId} (hnone : s.conns c = none)
    {ℓ : Fin (k + 1)} {f : BoundFunctor} (hf : f ∈ (s.loops ℓ).queue) : f.conn ≠ c := by
  rintro rfl
  rcases hs.queued ℓ f hf with hremove | ⟨sc, hsc, _⟩
  · have howns : f.Owns f.conn := ⟨rfl, by rw [hremove]; rfl⟩
    have hheld : s.Held f.conn := by
      rcases List.mem_append.mp hf with hf | hf
      · refine ⟨.batch ℓ, f, ?_, howns⟩
        cases hphase : (s.loops ℓ).phase with
        | functors done rest =>
          rw [hphase] at hf
          exact List.mem_append_right _ hf
        | _ =>
          rw [hphase] at hf
          exact absurd hf List.not_mem_nil
      · exact ⟨.pending ℓ, f, hf, howns⟩
    obtain ⟨sc, hsc⟩ := hs.ids.created _ hheld
    rw [hnone] at hsc
    cases hsc
  · rw [hnone] at hsc
    cases hsc

theorem lookup_of_inactive {c : ConnId} {active : List (ConnId × EventMask)}
    (h : c ∉ active.map (·.1)) : active.lookup c = none := by
  rw [List.lookup_eq_none_iff]
  intro q hq
  rw [bne_iff_ne]
  rintro rfl
  exact h (List.mem_map.mpr ⟨q, hq, rfl⟩)

theorem standing_of_inactive {c : ConnId} {p : Phase} (h : c ∉ p.channels) :
    standing c p = .polling ∨ standing c p = .handlers none ∨ standing c p = .functors := by
  cases p with
  | polling => exact Or.inl rfl
  | exited => exact Or.inl rfl
  | functors => exact Or.inr (Or.inr rfl)
  | handlers active =>
    rw [standing, lookup_of_inactive h]
    exact Or.inr (Or.inl rfl)
  | handling guard rest active =>
    obtain ⟨hguard, hactive⟩ := not_or.mp fun hor => h (List.mem_cons.mpr hor)
    rw [standing, if_neg (Ne.symm hguard), lookup_of_inactive hactive]
    exact Or.inr (Or.inl rfl)

/-- What the server shows of a connection before it is created. -/
theorem fresh_view {s : Server k} (hs : s.Homed) {c : ConnId} (hnone : s.conns c = none)
    (sc : ServerConn k) :
    ((s.view c sc).pc = .polling ∨ (s.view c sc).pc = .handlers none ∨
        (s.view c sc).pc = .functors) ∧
      (s.view c sc).batch = [] ∧ (s.view c sc).pending = [] ∧
      ∀ tid, (s.view c sc).threads tid = .idle := by
  refine ⟨standing_of_inactive ?_, boundTo_eq_nil ?_, boundTo_eq_nil ?_, ?_⟩
  · intro hc
    obtain ⟨sd, hsd, _⟩ := hs.active _ c hc
    rw [hnone] at hsd
    cases hsd
  · intro f hf
    exact hs.fresh_functor hnone (List.mem_append_left _ hf)
  · intro f hf
    exact hs.fresh_functor hnone (List.mem_append_right _ hf)
  · intro tid
    change s.callOf c tid = .idle
    unfold callOf
    split
    · rename_i hcall
      by_contra hbusy
      obtain ⟨sd, hsd⟩ := hs.called tid hbusy
      rw [hcall, hnone] at hsd
      cases hsd
    · rfl

/-- What is known of connection `c` after it has done `t`. -/
def Faithful (s : Server k) (c : ConnId) (t : List Effect) : Prop :=
  (s.conns c = none → t = []) ∧
    ∀ sc, s.conns c = some sc → s.Held c →
      Newborn c sc.loop (s.view c sc) (s.Running sc.loop) ∧ t = [] ∨
        RunsWorld c (s.view c sc) (s.Running sc.loop) t

/-- In the base loop `newConnection` runs `connectEstablished` at once, from the
acceptor's handler. -/
theorem runsWorld_at_once {s : Server k} {c : ConnId} {sc : ServerConn k} {running : Prop}
    {fd : Nat} {wc hw : Bool} {mark : Nat} (hconn : s.conns c = some sc)
    (htcp : sc.tcp = TcpConnection.new c fd wc hw mark)
    (hpc : (s.view c sc).pc = .handlers none) (hbatch : (s.view c sc).batch = [])
    (hpending : (s.view c sc).pending = []) (hthreads : ∀ tid, (s.view c sc).threads tid = .idle)
    (us : List UserCall) :
    RunsWorld c ((s.onConn c (·.connectEstablished us)).view c
        { sc with tcp := ((s.assemble sc).connectEstablished us).tcp }) running
      ((s.assemble sc).connectEstablished us).trace := by
  have hself := view_onConn_self hconn (·.connectEstablished us)
  rw [handed_of_open ((Conn.connectEstablished_stays (s.assemble sc) us).not_mem rfl),
    hpending, List.nil_append] at hself
  rw [hself]
  -- the world begins in a batch that is empty, and polls without an event
  have hbegun : RunsWorld c
      { s.view c sc with
        tcp := ((s.assemble sc).connectEstablished us).tcp
        pc := .functors
        pending := World.queuedFunctors ((s.assemble sc).connectEstablished us).trace } running
      ((s.assemble sc).connectEstablished us).trace := by
    refine runsWorld_of_established (n := 0) (m := 0) (d := s.assemble sc) htcp rfl rfl rfl
      hbatch ?_ hthreads
    rfl
  have hended := hbegun.seen (Seen.endFunctors (ℓ := sc.loop) rfl hbatch)
  have hpolled := hended.seen (Seen.poll (ℓ := sc.loop) none rfl fun hne => absurd rfl hne)
  rw [List.append_nil, List.append_nil] at hpolled
  have hview : { s.view c sc with
        tcp := ((s.assemble sc).connectEstablished us).tcp
        pc := .handlers none
        pending := World.queuedFunctors ((s.assemble sc).connectEstablished us).trace } =
      { s.view c sc with
        tcp := ((s.assemble sc).connectEstablished us).tcp
        pending := World.queuedFunctors ((s.assemble sc).connectEstablished us).trace } := by
    rw [← hpc]
  rw [← hview]
  exact hpolled

theorem newConnection_faithful {s : Server k} (hs : s.Homed) {fd : Nat} (hcan : s.CanAccept fd)
    (ioLoop : Fin (k + 1)) (wc hw : Bool) (mark : Nat) (us : List UserCall) :
    Faithful (s.newConnection fd ioLoop wc hw mark us) s.nextConnId
      (effects s.nextConnId s (.accept fd ioLoop wc hw mark us)) := by
  have hnew := addConnection_conns_self s fd ioLoop wc hw mark
  generalize hsc : (⟨ioLoop, s.connName s.nextConnId,
    TcpConnection.new s.nextConnId fd wc hw mark⟩ : ServerConn k) = sc at hnew
  have htcp : sc.tcp = TcpConnection.new s.nextConnId fd wc hw mark := by
    rw [← hsc]
  have hloop : sc.loop = ioLoop := by
    rw [← hsc]
  obtain ⟨hpc, hbatch, hpending, hthreads⟩ := fresh_view hs hs.ids.fresh sc
  have hview : (s.addConnection fd ioLoop wc hw mark).view s.nextConnId sc =
      s.view s.nextConnId sc := rfl
  rw [← hview] at hpc hbatch hpending hthreads
  unfold newConnection
  by_cases hbase : ioLoop = baseLoop
  · have heffects : effects s.nextConnId s (.accept fd ioLoop wc hw mark us) =
        (((s.addConnection fd ioLoop wc hw mark).assemble sc).connectEstablished us).trace := by
      rw [effects, if_pos ⟨rfl, hbase, hcan⟩, opTrace_of_conns hnew]
    have hstored := onConn_conns_self hnew (·.connectEstablished us)
    -- the acceptor's handler runs between those of the channels
    have hhandlers : ((s.addConnection fd ioLoop wc hw mark).view s.nextConnId sc).pc =
        .handlers none := by
      have hin := hcan.1
      have hguard := hcan.2.1
      rw [hview] at hpc ⊢
      simp only [view, hloop, hbase] at hpc ⊢
      cases hphase : (s.loops baseLoop).phase with
      | handlers active => simpa [hphase, standing] using hpc
      | handling => simp [hphase, Phase.guarded] at hguard
      | polling => simp [hphase, Phase.inHandlers] at hin
      | functors => simp [hphase, Phase.inHandlers] at hin
      | exited => simp [hphase, Phase.inHandlers] at hin
    rw [if_pos hbase, heffects]
    refine ⟨fun hnone => ?_, fun sc' hsc' _ => Or.inr ?_⟩
    · rw [hstored] at hnone
      cases hnone
    · rw [hstored] at hsc'
      obtain rfl := Option.some.inj hsc'
      exact runsWorld_at_once hnew htcp hhandlers hbatch hpending hthreads us
  · have heffects : effects s.nextConnId s (.accept fd ioLoop wc hw mark us) = [] := by
      rw [effects, if_neg fun h => hbase h.2.1]
    rw [if_neg hbase, heffects]
    refine ⟨fun _ => rfl, fun sc' hsc' _ => Or.inl ⟨?_, rfl⟩⟩
    have hkeep : (s.addConnection fd ioLoop wc hw mark).conns s.nextConnId = some sc' := hsc'
    rw [hnew] at hkeep
    obtain rfl := Option.some.inj hkeep
    have hqueue := view_queueInLoop_self (s.addConnection fd ioLoop wc hw mark)
      .connectEstablished s.nextConnId sc
    rw [hloop] at hqueue
    rw [hqueue]
    refine ⟨?_, ⟨fd, wc, hw, mark, htcp⟩, hpc, fun _ => ⟨0, ?_⟩, hthreads⟩
    · rw [hloop]
      exact hbase
    · simp [hbatch, hpending]

/-! ## Runs -/

theorem RunsWorld.weaken {c : ConnId} {v : View} {running running' : Prop} {t : List Effect}
    (h : RunsWorld c v running t) (hrun : running' → running) : RunsWorld c v running' t := by
  obtain ⟨fd, wc, hw, mark, us, mem, es, hmirrors, htrace⟩ := h
  exact ⟨fd, wc, hw, mark, us, mem, es, hmirrors.weaken hrun, htrace⟩

theorem opTrace_of_none {s : Server k} {c : ConnId} (hnone : s.conns c = none)
    (op : Conn → Conn) : s.opTrace c op = [] := by
  rw [opTrace, hnone]

theorem callTrace_of_none {s : Server k} {f : BoundFunctor} (hnone : s.conns f.conn = none)
    (mem : Nat → Byte) (a : Conn.Answers) : s.callTrace f mem a = [] := by
  unfold callTrace
  split
  · exact opTrace_of_none hnone _
  · exact opTrace_of_none hnone _
  · exact opTrace_of_none hnone _
  · exact opTrace_of_none hnone _
  · rfl

/-- A connection does nothing before it is accepted. -/
theorem effects_of_none {s : Server k} {c : ConnId} (hnone : s.conns c = none) {e : Label k}
    (haccept : ∀ fd ioLoop wc hw mark us, e = .accept fd ioLoop wc hw mark us →
      ¬ (c = s.nextConnId ∧ ioLoop = baseLoop ∧ s.CanAccept fd)) : effects c s e = [] := by
  cases e with
  | loop ℓ e =>
    rw [effects]
    split
    · cases e with
      | part a =>
        simp only [loopEffects]
        split
        · split
          · exact opTrace_of_none hnone _
          · rfl
        · rfl
      | functor mem a =>
        simp only [loopEffects]
        split
        · split
          · rename_i h
            refine callTrace_of_none ?_ mem a
            rw [h.1, hnone]
          · rfl
        · rfl
      | userCall d u =>
        simp only [loopEffects]
        split
        · exact opTrace_of_none hnone _
        · rfl
      | _ => rfl
    · rfl
  | accept fd ioLoop wc hw mark us =>
    rw [effects, if_neg (haccept fd ioLoop wc hw mark us rfl)]
  | destroyConn name us => simp [effects, hnone]
  | shutdownStore tid => simp [effects, hnone]
  | _ => rfl

/-- What does something is an enabled step. -/
theorem step_of_effects {s : Server k} {c : ConnId} {e : Label k} (h : effects c s e ≠ []) :
    Step s e (s.step e) := by
  cases e with
  | loop ℓ e =>
    by_cases hfree : s.LoopFree ℓ
    · rw [effects, if_pos hfree] at h
      rw [step, if_pos hfree]
      refine .loop ℓ e hfree ?_
      cases e with
      | part a =>
        cases hphase : (s.loops ℓ).phase with
        | handling guard rest active =>
          cases rest with
          | nil => simp [loopEffects, hphase] at h
          | cons p rest =>
            simp only [loopStep, hphase]
            exact .part guard p rest active a hphase
        | _ => simp [loopEffects, hphase] at h
      | functor mem a =>
        cases hphase : (s.loops ℓ).phase with
        | functors done rest =>
          cases rest with
          | nil => simp [loopEffects, hphase] at h
          | cons f rest =>
            simp only [loopStep, hphase]
            exact .functor done rest f mem a hphase
        | _ => simp [loopEffects, hphase] at h
      | userCall d u =>
        simp only [loopEffects] at h
        split at h
        · rename_i hcan
          obtain ⟨rfl, hpolling, hexited, hlives⟩ := hcan
          rw [loopStep, if_pos ⟨hpolling, hexited, hlives⟩]
          exact .userCall d u hpolling hexited hlives
        · exact absurd rfl h
      | _ => exact absurd rfl h
    · rw [effects, if_neg hfree] at h
      exact absurd rfl h
  | accept fd ioLoop wc hw mark us =>
    by_cases hcan : c = s.nextConnId ∧ ioLoop = baseLoop ∧ s.CanAccept fd
    · rw [step, if_pos hcan.2.2]
      exact .accept fd ioLoop wc hw mark us hcan.2.2
    · rw [effects, if_neg hcan] at h
      exact absurd rfl h
  | destroyConn name us =>
    simp only [effects] at h
    split at h
    · rename_i d sc hlife hlookup hconn
      split at h
      · rename_i hd
        obtain ⟨rfl, _⟩ := hd
        simp only [step, hlife, hlookup, hconn]
        exact .destroyConn name us d sc hlife hlookup hconn
      · exact absurd rfl h
    · exact absurd rfl h
  | shutdownStore tid =>
    simp only [effects] at h
    split at h
    · rename_i hcall
      simp only [step, hcall.1]
      exact .shutdownStore tid c hcall.1
    · exact absurd rfl h
  | _ => exact absurd rfl h

/-- A step creates and brings back no connection but the one it accepts. -/
theorem Step.same_conns {s s' : Server k} (hs : s.Ids) {e : Label k} (h : Step s e s')
    {c : ConnId} (hnew : ¬ (c = s.nextConnId ∧
      ∃ fd ioLoop wc hw mark us, e = .accept fd ioLoop wc hw mark us)) :
    (s.conns c = none ↔ s'.conns c = none) ∧ (s'.Held c → s.Held c) := by
  by_cases haccept : ∀ fd ioLoop wc hw mark us, e ≠ .accept fd ioLoop wc hw mark us
  · have hkeeps := (h.outcome hs haccept).toKeeps
    refine ⟨⟨fun hnone => ?_, fun hnone => ?_⟩, hkeeps.held c⟩
    · by_contra hsome
      obtain ⟨sc', hsc'⟩ := Option.ne_none_iff_exists'.mp hsome
      obtain ⟨sc, hsc, _⟩ := hkeeps.conn c sc' hsc'
      rw [hnone] at hsc
      cases hsc
    · by_contra hsome
      obtain ⟨sc, hsc⟩ := Option.ne_none_iff_exists'.mp hsome
      obtain ⟨sc', hsc'⟩ := hkeeps.created c sc hsc
      rw [hnone] at hsc'
      cases hsc'
  · push Not at haccept
    obtain ⟨fd, ioLoop, wc, hw, mark, us, rfl⟩ := haccept
    have hne : c ≠ s.nextConnId := fun heq => hnew ⟨heq, fd, ioLoop, wc, hw, mark, us, rfl⟩
    cases h with
    | accept fd ioLoop wc hw mark us hcan =>
      have hconns : (s.newConnection fd ioLoop wc hw mark us).conns c = s.conns c := by
        unfold newConnection
        split
        · rw [onConn_conns_of_ne _ _ (Ne.symm hne), addConnection_conns_ne hne]
        · exact addConnection_conns_ne hne
      refine ⟨by rw [hconns], fun hheld => ?_⟩
      rcases (newConnection_held hs hcan.2.2.2.1 fd ioLoop wc hw mark us c).mp hheld with
        hheld | heq
      · exact hheld
      · exact absurd heq hne

theorem Step.faithful {s s' : Server k} (hs : s.Homed) {e : Label k} (h : Step s e s')
    (hregular : s.Regular e) {c : ConnId} {t : List Effect} (hc : Faithful s c t) :
    Faithful s' c (t ++ effects c s e) := by
  -- the connection is accepted in this step, or was there before
  by_cases hnew : c = s.nextConnId ∧ ∃ fd ioLoop wc hw mark us,
      e = .accept fd ioLoop wc hw mark us
  · obtain ⟨rfl, fd, ioLoop, wc, hw, mark, us, rfl⟩ := hnew
    rw [hc.1 hs.ids.fresh, List.nil_append]
    cases h with
    | accept fd ioLoop wc hw mark us hcan =>
      exact newConnection_faithful hs hcan ioLoop wc hw mark us
  have hold := h.same_conns hs.ids hnew
  constructor
  · intro hnone
    have hnone' := hold.1.mpr hnone
    rw [hc.1 hnone', List.nil_append]
    refine effects_of_none hnone' ?_
    rintro fd ioLoop wc hw mark us rfl ⟨heq, _⟩
    exact hnew ⟨heq, fd, ioLoop, wc, hw, mark, us, rfl⟩
  · intro sc' hsc' hheld'
    have hheld := hold.2 hheld'
    obtain ⟨sc, hsc⟩ := hs.ids.created c hheld
    obtain ⟨sd, hsd, hloop, hseen⟩ := h.shows hs hregular hsc hheld hheld'
    rw [hsc'] at hsd
    obtain rfl := Option.some.inj hsd
    have hrun : s'.Running sc.loop → s.Running sc.loop :=
      fun hrunning hexited => hrunning (h.exited hexited)
    rw [hloop]
    rcases hc.2 sc hsc hheld with ⟨hnewborn, rfl⟩ | hworld
    · rw [List.nil_append]
      exact (hnewborn.weaken hrun).seen hseen
    · exact Or.inr ((hworld.weaken hrun).seen hseen)

theorem Faithful.step {s : Server k} (hs : s.Homed) {e : Label k} (hregular : s.Regular e)
    {c : ConnId} {t : List Effect} (hc : Faithful s c t) :
    Faithful (s.step e) c (t ++ effects c s e) := by
  by_cases heffects : effects c s e = []
  · rcases step_cases s e with hstutter | hstep
    · rw [hstutter, heffects, List.append_nil]
      exact hc
    · exact hstep.faithful hs hregular hc
  · exact (step_of_effects heffects).faithful hs hregular hc

theorem run_faithful {s : Server k} (hs : s.Homed) {c : ConnId} {t : List Effect}
    (hc : Faithful s c t) {ls : List (Label k)} (hregular : EachStep step s Regular ls) :
    Faithful (run step s ls) c (t ++ collect step (effects c) s ls) := by
  induction ls generalizing s t with
  | nil =>
    rw [collect, List.append_nil]
    exact hc
  | cons e ls ih =>
    obtain ⟨he, hls⟩ := eachStep_cons.mp hregular
    rw [run_cons, collect, ← List.append_assoc]
    exact ih (hs.step e he) (hc.step hs he) hls

/-- The connection exists, and `connectEstablished` has run. -/
def HasBegun (s : Server k) (c : ConnId) : Prop :=
  s.Held c ∧ ∃ sc ∈ s.conns c, sc.tcp.state ≠ .kConnecting

instance (s : Server k) (c : ConnId) : Decidable (s.HasBegun c) := by
  unfold HasBegun
  infer_instance

/-- A connection that has been established has gone through a run of a world of its
own: what the server shows of it is mirrored there, and its operations in the server,
one after the other, make the world's trace. -/
theorem connections_make_world_runs (name : List Char) (listenAddr : InetAddress)
    {ls : List (Label k)} (hregular : EachStep step (init k name listenAddr) Regular ls)
    {c : ConnId} (hc : (run step (init k name listenAddr) ls).HasBegun c) :
    ∃ sc ∈ (run step (init k name listenAddr) ls).conns c,
      RunsWorld c ((run step (init k name listenAddr) ls).view c sc)
        ((run step (init k name listenAddr) ls).Running sc.loop)
        (collect step (effects c) (init k name listenAddr) ls) := by
  obtain ⟨hheld, sc, hconn, hstate⟩ := hc
  have hbegin : Faithful (init k name listenAddr) c [] := by
    refine ⟨fun _ => rfl, fun sc hsc => ?_⟩
    cases hsc
  have hend := run_faithful (init_homed k name listenAddr) hbegin hregular
  rw [List.nil_append] at hend
  rcases hend.2 sc hconn hheld with ⟨hnewborn, _⟩ | hworld
  · exact absurd hnewborn.state hstate
  · exact ⟨sc, hconn, hworld⟩

/-- A connection of the second loop is accepted and established, and answers a
greeting. -/
def greetingSteps : List (Label 1) :=
  [.loop baseLoop (.poll []), .accept 7 (Fin.last 1) false false 100 [],
    .loop (Fin.last 1) (.poll []), .loop (Fin.last 1) .startFunctors,
    .loop (Fin.last 1) (.functor (fun _ => 0) quiet), .loop (Fin.last 1) .endFunctors,
    .loop (Fin.last 1) (.poll [(7, EPOLLIN)]), .loop (Fin.last 1) .handle,
    .loop (Fin.last 1) (.part
      ⟨.ok [104, 105], .err .eagain, .ok .eagain, [.send [104, 105] (.ok 2)], []⟩)]

theorem connections_make_world_runs_greeting :
    ∃ sc ∈ (run step (init 1 ['e'] ⟨fun _ => 0#8, 80#16⟩) greetingSteps).conns 1,
      RunsWorld 1 ((run step (init 1 ['e'] ⟨fun _ => 0#8, 80#16⟩) greetingSteps).view 1 sc)
        ((run step (init 1 ['e'] ⟨fun _ => 0#8, 80#16⟩) greetingSteps).Running sc.loop)
        (collect step (effects 1) (init 1 ['e'] ⟨fun _ => 0#8, 80#16⟩) greetingSteps) :=
  connections_make_world_runs ['e'] ⟨fun _ => 0#8, 80#16⟩ (by decide) (by decide +kernel)

end Server

end EchoServer
