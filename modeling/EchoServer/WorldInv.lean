import EchoServer.World

/-!
# The invariant of a shared connection

* `World.Inv`, `Inv.step`: every queued functor and every call in progress is
  justified by the history, a channel whose handlers run is not `New`, and a
  connection is not `KConnected` once its channel has been removed;
* `connStep`: what one step can do to the connection, one constructor each;
* `removed_step`: how little of that is left once the channel is removed.
-/

namespace EchoServer

open Runs Trace

/-- Why a functor may be in the queue. `connectEstablished` has already run. -/
def Functor.Justified (c : Conn) : Functor → Prop
  | .sendInLoop buf => buf.content.length = buf.len
  | .shutdownInLoop => .setState .kDisconnecting ∈ c.trace
  | .connectEstablished => False
  | _ => True

def ThreadPc.Justified (c : Conn) : ThreadPc → Prop
  | .sendAccepted buf => buf.content.length = buf.len
  | .shutdownStored => .setState .kDisconnecting ∈ c.trace
  | _ => True

/-- The channel's handlers are running or about to. -/
def LoopPc.Busy : LoopPc → Prop
  | .handlers (some _) => True
  | .handling (_ :: _) => True
  | _ => False

theorem Functor.Justified.mono {c d : Conn} (hsub : ∀ e ∈ c.trace, e ∈ d.trace) {f : Functor}
    (h : f.Justified c) : f.Justified d := by
  cases f with
  | shutdownInLoop => exact hsub _ h
  | _ => exact h

theorem ThreadPc.Justified.mono {c d : Conn} (hsub : ∀ e ∈ c.trace, e ∈ d.trace) {pc : ThreadPc}
    (h : pc.Justified c) : pc.Justified d := by
  cases pc with
  | shutdownStored => exact hsub _ h
  | _ => exact h

/-- What a sound connection queues itself is justified. -/
theorem Conn.Sound.justified {c : Conn} (h : c.Sound) {f : Functor}
    (hf : .queueInLoop f ∈ c.trace) : f.Justified c := by
  rcases h.queued f hf with hcallback | rfl
  · cases f with
    | writeCompleteCallback => trivial
    | writeCompleteMember => trivial
    | highWaterMarkCallback => trivial
    | _ => exact hcallback.elim
  · exact h.shutdownQueued hf

namespace World

structure Inv (w : World) : Prop where
  sound : w.conn.Sound
  queued : ∀ f ∈ w.batch ++ w.pending, f.Justified w.conn
  threads : ∀ tid, (w.threads tid).Justified w.conn
  busy : w.pc.Busy → w.conn.tcp.channel.index ≠ .new
  destroying : w.destroying ≠ none → w.pc = .polling ∨ w.pc = .functors
  tested : w.destroying = some false → w.conn.tcp.state ≠ .kConnected
  removed : .removeChannel ∈ w.conn.trace → w.conn.tcp.state ≠ .kConnected

namespace Inv

theorem withConn {w : World} (h : w.Inv) {c : Conn} (hmoves : Conn.Moves w.conn c) :
    (w.withConn c).Inv where
  sound := hmoves.sound h.sound
  queued f hf := by
    have hsub : ∀ e ∈ w.conn.trace, e ∈ c.trace := fun _ => hmoves.mem_trace
    rcases List.mem_append.mp hf with hf | hf
    · exact (h.queued f (List.mem_append_left _ hf)).mono hsub
    · rcases mem_withConn_pending hf with hf | hf
      · exact (h.queued f (List.mem_append_right _ hf)).mono hsub
      · exact (hmoves.sound h.sound).justified hf
  threads tid := (h.threads tid).mono fun _ => hmoves.mem_trace
  busy hbusy := hmoves.index (h.busy hbusy)
  destroying := h.destroying
  tested htested := hmoves.state (Or.inr rfl) (h.tested htested)
  removed hremoved := hmoves.state (Or.inr rfl) (h.removed (hmoves.removed.mp hremoved))

theorem push {w : World} (h : w.Inv) {f : Functor} (hf : f.Justified w.conn) :
    (w.push f).Inv where
  sound := h.sound
  queued g hg := by
    rcases List.mem_append.mp hg with hg | hg
    · exact h.queued g (List.mem_append_left _ hg)
    · rcases List.mem_append.mp hg with hg | hg
      · exact h.queued g (List.mem_append_right _ hg)
      · rw [List.mem_singleton.mp hg]
        exact hf
  threads := h.threads
  busy := h.busy
  destroying := h.destroying
  tested := h.tested
  removed := h.removed

theorem setThread {w : World} (h : w.Inv) (tid : Nat) {pc : ThreadPc}
    (hpc : pc.Justified w.conn) : (w.setThread tid pc).Inv where
  sound := h.sound
  queued := h.queued
  threads tid' := by
    by_cases heq : tid' = tid
    · subst heq
      simpa [World.setThread] using hpc
    · simpa [World.setThread, heq] using h.threads tid'
  busy := h.busy
  destroying := h.destroying
  tested := h.tested
  removed := h.removed

theorem setPc {w : World} (h : w.Inv) (hdest : w.destroying = none) {pc : LoopPc}
    (hbusy : pc.Busy → w.conn.tcp.channel.index ≠ .new) : { w with pc := pc }.Inv where
  sound := h.sound
  queued := h.queued
  threads := h.threads
  busy := hbusy
  destroying hne := absurd hdest hne
  tested := h.tested
  removed := h.removed

theorem setQueues {w : World} (h : w.Inv) {batch pending : List Functor}
    (hsub : ∀ f ∈ batch ++ pending, f ∈ w.batch ++ w.pending) :
    { w with batch := batch, pending := pending }.Inv where
  sound := h.sound
  queued f hf := h.queued f (hsub f hf)
  threads := h.threads
  busy := h.busy
  destroying := h.destroying
  tested := h.tested
  removed := h.removed

theorem testConnected {w : World} (h : w.Inv) (hpc : w.pc = .polling ∨ w.pc = .functors) :
    w.testConnected.Inv where
  sound := h.sound
  queued := h.queued
  threads := h.threads
  busy := h.busy
  destroying _ := hpc
  tested htested := by
    simpa [World.testConnected] using htested
  removed := h.removed

theorem disconnecting {w : World} (h : w.Inv) :
    { w with conn := w.conn.setState .kDisconnecting }.Inv where
  sound := h.sound.disconnecting
  queued f hf := (h.queued f hf).mono fun _ => List.mem_append_left _
  threads tid := (h.threads tid).mono fun _ => List.mem_append_left _
  busy := h.busy
  destroying := h.destroying
  tested _ := by simp
  removed _ := by simp

theorem execute {w : World} (h : w.Inv) {f : Functor} (hf : f.Justified w.conn)
    (hpc : w.pc = .functors) (a : Conn.Answers) : (w.execute f a).Inv := by
  cases f with
  | sendInLoop buf => exact h.withConn (Conn.sendInLoop_moves _ _ _)
  | shutdownInLoop => exact h.withConn (Conn.shutdownInLoop_moves _)
  | writeCompleteCallback => exact h
  | writeCompleteMember => exact h
  | highWaterMarkCallback => exact h
  | connectEstablished => exact hf.elim
  | connectDestroyed => exact h.testConnected (Or.inr hpc)
  | removeConnectionInLoop => exact h.push trivial

/-- Removing the channel keeps the invariant: its handlers are not running, and
`state_` has been left for good by whichever branch was taken. -/
theorem destroyRest {w : World} (h : w.Inv) {saw : Bool} (hdest : w.destroying = some saw)
    (us : List UserCall) :
    { w.withConn (w.conn.connectDestroyedAfter saw us) with destroying := none }.Inv := by
  have hpc := h.destroying (by simp [hdest])
  have hstate : (w.conn.connectDestroyedAfter saw us).tcp.state ≠ .kConnected := by
    cases saw with
    | true =>
      have hdown : (w.conn.connectDestroyedAfter true us).tcp.state = .kDisconnected :=
        (Conn.notifyDown_onlyConsumes w.conn us).state
      simp [hdown]
    | false => exact h.tested hdest
  obtain ⟨d, hmoves, heq⟩ := Conn.connectDestroyedAfter_eq w.conn saw us
  have hsound := Conn.connectDestroyedAfter_sound h.sound saw us
  have hsub : ∀ e ∈ w.conn.trace, e ∈ (w.conn.connectDestroyedAfter saw us).trace := by
    intro e he
    rw [heq]
    exact List.mem_append_left _ (hmoves.mem_trace he)
  refine ⟨hsound, ?_, ?_, ?_, ?_, ?_, ?_⟩
  · intro f hf
    rcases List.mem_append.mp hf with hf | hf
    · exact (h.queued f (List.mem_append_left _ hf)).mono hsub
    · rcases mem_withConn_pending hf with hf | hf
      · exact (h.queued f (List.mem_append_right _ hf)).mono hsub
      · exact hsound.justified hf
  · intro tid
    exact (h.threads tid).mono hsub
  · intro hbusy
    rcases hpc with hpc | hpc
    · simp [hpc, LoopPc.Busy] at hbusy
    · simp [hpc, LoopPc.Busy] at hbusy
  · intro hne
    exact absurd rfl hne
  · intro htested
    simp at htested
  · intro _
    exact hstate

theorem step {w : World} (h : w.Inv) (e : Label) : (w.step e).Inv := by
  apply covers.elim h
  intro w' hstep
  cases hstep with
  | send tid data len hpc hstate =>
    refine h.setThread tid ?_
    simp [ThreadPc.Justified, window]
  | sendQueue tid buf hpc =>
    have hbuf := h.threads tid
    rw [hpc] at hbuf
    have hpush := h.push (f := .sendInLoop buf) hbuf
    exact hpush.setThread tid trivial
  | shutdown tid hpc hstate => exact h.setThread tid trivial
  | shutdownStore tid hpc =>
    refine h.disconnecting.setThread tid ?_
    simp [ThreadPc.Justified]
  | shutdownQueue tid hpc =>
    have hstored := h.threads tid
    rw [hpc] at hstored
    have hpush := h.push (f := .shutdownInLoop) hstored
    exact hpush.setThread tid trivial
  | store addr b =>
    exact ⟨h.sound, h.queued, h.threads, h.busy, h.destroying, h.tested, h.removed⟩
  | queueDestroyed => exact h.push trivial
  | poll revents hdest hpc hreports =>
    refine h.setPc hdest ?_
    intro hbusy
    cases revents with
    | none => exact hbusy.elim
    | some m =>
      -- a reported channel is registered, hence `Added`
      have hadded := (EPollPoller.registered_iff h.sound.coherent).mp hreports
      simp [hadded]
  | handle revents hdest hpc =>
    exact h.setPc hdest fun _ => h.busy (by simp [hpc, LoopPc.Busy])
  | part p rest a hdest hpc =>
    refine (h.withConn (Conn.runPart_moves _ _ _)).setPc hdest fun _ => ?_
    exact (Conn.runPart_moves w.conn p a).index (h.busy (by simp [hpc, LoopPc.Busy]))
  | handled hdest hpc => exact h.setPc hdest fun hbusy => hbusy.elim
  | userCall u hdest hpc => exact h.withConn (Conn.userCall_moves _ _)
  | swap hdest hpc =>
    have hqueues : { w with batch := w.pending, pending := [] }.Inv := by
      refine h.setQueues ?_
      intro f hf
      simpa using Or.inr hf
    exact hqueues.setPc hdest fun hbusy => hbusy.elim
  | functor f rest a hdest hpc hbatch =>
    have hf : f.Justified w.conn := h.queued f (by simp [hbatch])
    have hqueues : { w with batch := rest }.Inv := by
      refine h.setQueues ?_
      intro g hg
      rw [hbatch, List.cons_append]
      exact List.mem_cons_of_mem f hg
    exact hqueues.execute hf hpc a
  | endFunctors hdest hpc hbatch => exact h.setPc hdest fun hbusy => hbusy.elim
  | connectDestroyed hdest hpc => exact h.testConnected hpc
  | destroyRest saw us hdest => exact h.destroyRest hdest us

end Inv

/-- The loop thread has just run `connectEstablished`; the strings of the other
threads are anywhere in memory. -/
def established (self fd : Nat) (wc hw : Bool) (mark : Nat) (onConnection : List UserCall)
    (mem : Nat → Byte) : World where
  conn := Conn.upConn self fd wc hw mark onConnection
  mem := mem
  pending := queuedFunctors (Conn.upConn self fd wc hw mark onConnection).trace
  batch := []
  pc := .functors
  destroying := none
  threads := fun _ => .idle

theorem upConn_removeChannel (self fd : Nat) (wc hw : Bool) (mark : Nat) (us : List UserCall) :
    .removeChannel ∉ (Conn.upConn self fd wc hw mark us).trace := by
  unfold Conn.upConn Conn.connectEstablished Conn.connectionCallback
  rw [(Conn.userCalls_moves _ us).removed]
  simp [Conn.enableReading, Conn.new]

theorem established_inv (self fd : Nat) (wc hw : Bool) (mark : Nat) (us : List UserCall)
    (mem : Nat → Byte) : (established self fd wc hw mark us mem).Inv where
  sound := Conn.upConn_sound self fd wc hw mark us
  queued f hf := by
    have hf' : .queueInLoop f ∈ (Conn.upConn self fd wc hw mark us).trace := by
      simpa [established, mem_queuedFunctors] using hf
    exact (Conn.upConn_sound self fd wc hw mark us).justified hf'
  threads _ := trivial
  busy hbusy := hbusy.elim
  destroying hne := absurd rfl hne
  tested htested := by simp [established] at htested
  removed hremoved := absurd hremoved (upConn_removeChannel self fd wc hw mark us)

/-! ## What happens to the connection -/

/-- The step executes a `sendInLoop` functor bound to `buf`. -/
def RunsSend (w : World) (buf : SentString) (a : Conn.Answers) (e : Label) : Prop :=
  w.destroying = none ∧ w.pc = .functors ∧ w.batch.head? = some (.sendInLoop buf) ∧
    e = .loop (.functor a)

theorem step_of_runsSend {w : World} {buf : SentString} {a : Conn.Answers} {e : Label}
    (h : w.RunsSend buf a e) :
    (w.step e).conn = w.conn.sendInLoop (w.window buf.data buf.len) a.write := by
  obtain ⟨hdest, hpc, hhead, rfl⟩ := h
  obtain ⟨rest, hbatch⟩ := List.head?_eq_some_iff.mp hhead
  simp [step, loopStep, runFunctor, hdest, hpc, hbatch, execute, window]

/-- What a step other than a queued send makes of the connection. -/
inductive ConnStep (w : World) : Label → Conn → Prop where
  | same (e : Label) : ConnStep w e w.conn
  | shutdownStore (tid : Nat) (hpc : w.threads tid = .shutdownChecked) :
      ConnStep w (.shutdownStore tid) (w.conn.setState .kDisconnecting)
  | part (p : Conn.Part) (rest : List Conn.Part) (a : Conn.Answers)
      (hdest : w.destroying = none) (hpc : w.pc = .handling (p :: rest)) :
      ConnStep w (.loop (.part a)) (w.conn.runPart p a)
  | userCall (u : UserCall) : ConnStep w (.loop (.userCall u)) (w.conn.userCall u)
  | shutdownInLoop (a : Conn.Answers) (hdest : w.destroying = none) (hpc : w.pc = .functors)
      (hhead : w.batch.head? = some .shutdownInLoop) :
      ConnStep w (.loop (.functor a)) w.conn.shutdownInLoop
  | destroyRest (saw : Bool) (us : List UserCall) (hdest : w.destroying = some saw) :
      ConnStep w (.destroyRest us) (w.conn.connectDestroyedAfter saw us)

theorem connStep {w : World} (h : w.Inv) {e : Label} (hsend : ∀ buf a, ¬ w.RunsSend buf a e) :
    ConnStep w e (w.step e).conn := by
  refine covers.elim (P := fun w' => ConnStep w e w'.conn) (.same e) ?_
  intro w' hstep
  cases hstep with
  | send | sendQueue | shutdown | shutdownQueue | store | queueDestroyed | poll | handle
  | handled | swap | endFunctors | connectDestroyed => exact .same _
  | shutdownStore tid hpc => exact .shutdownStore tid hpc
  | part p rest a hdest hpc => exact .part p rest a hdest hpc
  | userCall u hdest hpc => exact .userCall u
  | functor f rest a hdest hpc hbatch =>
    cases f with
    | sendInLoop buf =>
      exact absurd ⟨hdest, hpc, by rw [hbatch]; rfl, rfl⟩ (hsend buf a)
    | shutdownInLoop => exact .shutdownInLoop a hdest hpc (by rw [hbatch]; rfl)
    | connectEstablished => exact (h.queued .connectEstablished (by simp [hbatch])).elim
    | _ => exact .same _
  | destroyRest saw us hdest => exact .destroyRest saw us hdest

theorem connectDestroyedAfter_mem {c : Conn} {e : Effect} (he : e ∈ c.trace) (saw : Bool)
    (us : List UserCall) : e ∈ (c.connectDestroyedAfter saw us).trace := by
  obtain ⟨d, hmoves, heq⟩ := Conn.connectDestroyedAfter_eq c saw us
  rw [heq]
  exact List.mem_append_left _ (hmoves.mem_trace he)

/-- Nothing recorded is forgotten. -/
theorem mem_trace_step {w : World} (h : w.Inv) (e : Label) {x : Effect}
    (hx : x ∈ w.conn.trace) : x ∈ (w.step e).conn.trace := by
  by_cases hsend : ∀ buf a, ¬ w.RunsSend buf a e
  · have hstep := connStep h hsend
    generalize (w.step e).conn = c at hstep
    cases hstep with
    | same => exact hx
    | shutdownStore => exact List.mem_append_left _ hx
    | part p rest a => exact (Conn.runPart_moves _ p a).mem_trace hx
    | userCall u => exact (Conn.userCall_moves _ u).mem_trace hx
    | shutdownInLoop => exact (Conn.shutdownInLoop_moves _).mem_trace hx
    | destroyRest saw us => exact connectDestroyedAfter_mem hx saw us
  · push Not at hsend
    obtain ⟨buf, a, hrun⟩ := hsend
    rw [step_of_runsSend hrun]
    exact (Conn.sendInLoop_moves _ _ _).mem_trace hx

/-- The channel of the connection has been removed from the poller. -/
def Removed (w : World) : Prop := .removeChannel ∈ w.conn.trace

theorem connectDestroyedAfter_index (c : Conn) (saw : Bool) (us : List UserCall) :
    (c.connectDestroyedAfter saw us).tcp.channel.index = .new := by
  obtain ⟨d, _, heq⟩ := Conn.connectDestroyedAfter_eq c saw us
  rw [heq]
  simp [Conn.removeChannel, EPollPoller.removeChannel_channel]

/-- Once the channel is removed and `New`, what is left are late stores and
half-closes, another `connectDestroyed`, and user code that only reads. -/
theorem removed_step {w : World} (h : w.Inv) (hremoved : w.Removed)
    (hnew : w.conn.tcp.channel.index = .new) {e : Label}
    (hsend : ∀ buf a, ¬ w.RunsSend buf a e) :
    Conn.OnlyConsumes w.conn (w.step e).conn ∨
    (∃ tid, e = .shutdownStore tid ∧ w.threads tid = .shutdownChecked ∧
      (w.step e).conn = w.conn.setState .kDisconnecting) ∨
    (w.step e).conn = w.conn.shutdownInLoop ∨
    ∃ saw us, w.destroying = some saw ∧ e = .destroyRest us ∧
      (w.step e).conn = w.conn.connectDestroyedAfter saw us := by
  have hconn := connStep h hsend
  generalize (w.step e).conn = c at hconn
  cases hconn with
  | same => exact Or.inl (Conn.OnlyConsumes.refl _)
  | shutdownStore tid hpc => exact Or.inr (Or.inl ⟨tid, rfl, hpc, rfl⟩)
  | part p rest a hdest hpc => exact absurd hnew (h.busy (by simp [hpc, LoopPc.Busy]))
  | userCall u => exact Or.inl (Conn.userCall_onlyConsumes (h.removed hremoved) u)
  | shutdownInLoop => exact Or.inr (Or.inr (Or.inl rfl))
  | destroyRest saw us hdest => exact Or.inr (Or.inr (Or.inr ⟨saw, us, hdest, rfl, rfl⟩))

/-- Only the end of `connectDestroyed` removes the channel. -/
theorem removes_cases {w : World} (h : w.Inv) {e : Label} (hremoved : ¬ w.Removed)
    (hremoved' : (w.step e).Removed) :
    ∃ saw us, w.destroying = some saw ∧ e = .destroyRest us ∧
      (w.step e).conn = w.conn.connectDestroyedAfter saw us := by
  by_cases hsend : ∀ buf a, ¬ w.RunsSend buf a e
  · have hconn := connStep h hsend
    unfold Removed at hremoved'
    generalize (w.step e).conn = c at hconn hremoved'
    cases hconn with
    | same => exact absurd hremoved' hremoved
    | shutdownStore => exact absurd (Conn.Moves.refl.disconnecting.removed.mp hremoved') hremoved
    | part p rest a => exact absurd ((Conn.runPart_moves _ p a).removed.mp hremoved') hremoved
    | userCall u => exact absurd ((Conn.userCall_moves _ u).removed.mp hremoved') hremoved
    | shutdownInLoop =>
      exact absurd ((Conn.shutdownInLoop_moves _).removed.mp hremoved') hremoved
    | destroyRest saw us hdest => exact ⟨saw, us, hdest, rfl, rfl⟩
  · push Not at hsend
    obtain ⟨buf, a, hrun⟩ := hsend
    unfold Removed at hremoved'
    rw [step_of_runsSend hrun, (Conn.sendInLoop_moves _ _ _).removed] at hremoved'
    exact absurd hremoved' hremoved

end World

end EchoServer
