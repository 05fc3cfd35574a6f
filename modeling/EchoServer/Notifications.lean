import EchoServer.Lib.Runs
import EchoServer.Lifecycle

/-!
# Nothing after DOWN

Runs of one connection over everything its loop can do with it: event masks
handed to `handleEventWithGuard`, queued functors, user calls outside of the
callbacks, and `connectDestroyed`.

A run is quiet after DOWN when the DOWN notification is followed by nothing but
the one `closeCallback_` of the same `handleClose`. The close, error and read
callbacks all reach `handleClose`, which does not look at `state_`, so a mask
that selects two of them breaks this, and so does any of them after DOWN
(`handleEvent_quiet_iff`).
-/

namespace EchoServer

open Runs Trace

/-- The callbacks the user and the server are told through. -/
def Effect.isNotification : Effect → Bool
  | .connectionCallback _ => true
  | .messageCallback => true
  | .closeCallback => true
  | _ => false

/-- After DOWN only `closeCallback_`, at most once and right after DOWN. -/
structure QuietAfterDown (ns : List Effect) : Prop where
  quiet : ns.Pairwise fun e later => e = .down → later = .closeCallback
  once : ns.count .closeCallback ≤ 1
  afterDown : ∀ pre, pre ++ [.closeCallback] <+: ns → pre.getLast? = some .down

namespace QuietAfterDown

theorem concat_iff {ns : List Effect} {e : Effect} :
    QuietAfterDown (ns ++ [e]) ↔ QuietAfterDown ns ∧ (.down ∈ ns → e = .closeCallback) ∧
      (e = .closeCallback → .closeCallback ∉ ns ∧ ns.getLast? = some .down) := by
  constructor
  · intro h
    have hpair := List.pairwise_append.mp h.quiet
    refine ⟨⟨hpair.1, ?_, ?_⟩, ?_, ?_⟩
    · exact Nat.le_trans (List.Sublist.count_le _ (List.sublist_append_left ns [e])) h.once
    · intro pre hpre
      exact h.afterDown pre (hpre.trans (List.prefix_append ns [e]))
    · intro hdown
      exact hpair.2.2 .down hdown e (List.mem_singleton_self e) rfl
    · rintro rfl
      refine ⟨?_, h.afterDown ns (List.prefix_refl _)⟩
      intro hmem
      have honce := h.once
      have hpos := List.count_pos_iff.mpr hmem
      simp only [List.count_append, List.count_singleton_self] at honce
      omega
  · rintro ⟨h, hdown, hclose⟩
    refine ⟨?_, ?_, ?_⟩
    · refine List.pairwise_append.mpr ⟨h.quiet, List.pairwise_singleton _ _, ?_⟩
      rintro _ ha b hb rfl
      rw [List.mem_singleton.mp hb]
      exact hdown ha
    · by_cases he : e = .closeCallback
      · subst he
        have hzero := List.count_eq_zero.mpr (hclose rfl).1
        simp [hzero]
      · rw [List.count_append, List.count_singleton, if_neg (by simpa using he)]
        exact h.once
    · intro pre hpre
      rcases Runs.concat_isPrefix_concat_iff.mp hpre with hpre' | ⟨rfl, he⟩
      · exact h.afterDown pre hpre'
      · exact (hclose he.symm).2

/-- Without DOWN there has been no `closeCallback_` either. -/
theorem close_not_mem {ns : List Effect} (h : QuietAfterDown ns) (hdown : .down ∉ ns) :
    .closeCallback ∉ ns := by
  intro hmem
  obtain ⟨pre, post, rfl⟩ := List.mem_iff_append.mp hmem
  have hlast := h.afterDown pre ⟨post, by simp⟩
  exact hdown (List.mem_append_left _ (List.mem_of_getLast? hlast))

theorem of_prefix {ns ms : List Effect} (h : QuietAfterDown ms) (hpre : ns <+: ms) :
    QuietAfterDown ns where
  quiet := h.quiet.sublist hpre.sublist
  once := Nat.le_trans (hpre.sublist.count_le _) h.once
  afterDown pre hp := h.afterDown pre (hp.trans hpre)

theorem message_iff {ns : List Effect} (h : QuietAfterDown ns) :
    QuietAfterDown (ns ++ [.messageCallback]) ↔ .down ∉ ns := by
  simp [concat_iff, h]

theorem down_iff {ns : List Effect} (h : QuietAfterDown ns) :
    QuietAfterDown (ns ++ [.down]) ↔ .down ∉ ns := by
  simp [concat_iff, h]

theorem downClose_iff {ns : List Effect} (h : QuietAfterDown ns) :
    QuietAfterDown (ns ++ [.down] ++ [.closeCallback]) ↔ .down ∉ ns := by
  rw [concat_iff, down_iff h]
  constructor
  · rintro ⟨hdown, _⟩
    exact hdown
  · intro hdown
    refine ⟨hdown, fun _ => rfl, fun _ => ⟨?_, by simp⟩⟩
    simpa using h.close_not_mem hdown

end QuietAfterDown

namespace Conn

def notifications (c : Conn) : List Effect := c.trace.filter Effect.isNotification

/-- The DOWN notification has been made. -/
def NotifiedDown (c : Conn) : Prop := .down ∈ c.trace

instance (c : Conn) : Decidable c.NotifiedDown :=
  inferInstanceAs (Decidable (.down ∈ c.trace))

theorem down_mem_notifications (c : Conn) : .down ∈ c.notifications ↔ c.NotifiedDown := by
  simp [notifications, NotifiedDown, Effect.isNotification]

def QuietAfterDown (c : Conn) : Prop := EchoServer.QuietAfterDown c.notifications

/-! ## What each operation notifies -/

theorem userCalls_notifications (c : Conn) (us : List UserCall) :
    (c.userCalls us).notifications = c.notifications := by
  refine (userCalls_extends c us).filter_eq ?_
  intro e he
  cases e with
  | connectionCallback => exact he.elim
  | messageCallback => exact he.elim
  | closeCallback => exact he.elim
  | _ => rfl

theorem sendInLoop_notifications (c : Conn) (data : List Byte) (w : WriteResult) :
    (c.sendInLoop data w).notifications = c.notifications := by
  refine (sendInLoop_extends c data w).filter_eq ?_
  intro e he
  cases e with
  | write => rfl
  | queueInLoop => rfl
  | _ => exact he.elim

theorem shutdownInLoop_notifications (c : Conn) :
    c.shutdownInLoop.notifications = c.notifications := by
  refine (shutdownInLoop_extends c).filter_eq ?_
  rintro e rfl
  rfl

theorem handleWrite_notifications (c : Conn) (w : WriteResult) :
    (c.handleWrite w).notifications = c.notifications := by
  refine (handleWrite_extends c w).filter_eq ?_
  intro e he
  cases e with
  | write => rfl
  | queueInLoop => rfl
  | shutdownWrite => rfl
  | _ => exact he.elim

/-- `handleClose` and the first branch of `connectDestroyed` notify DOWN. -/
theorem notifyDown_notifications (c : Conn) (us : List UserCall) :
    (((c.setState .kDisconnected).disableAll).connectionCallback us).notifications =
      c.notifications ++ [.down] := by
  have hcalled : ((c.setState .kDisconnected).disableAll).tcp.connected = false := rfl
  unfold connectionCallback
  rw [userCalls_notifications, hcalled]
  simp [notifications, disableAll, Effect.isNotification]

theorem handleClose_notifications (c : Conn) (us : List UserCall) :
    (c.handleClose us).notifications = c.notifications ++ [.down] ++ [.closeCallback] := by
  have hdown := notifyDown_notifications c us
  unfold notifications at hdown ⊢
  simp only [handleClose, emit_trace, List.filter_append, hdown]
  rfl

theorem handleError_notifications (c : Conn) (opt : SockOptResult) (us : List UserCall) :
    (c.handleError opt us).notifications = c.notifications ++ [.down] ++ [.closeCallback] := by
  obtain ⟨e, he⟩ := handleError_eq c opt us
  rw [he, handleClose_notifications]
  simp [notifications, Effect.isNotification]

theorem messageCallback_notifications (c : Conn) (us : List UserCall) :
    (c.messageCallback us).notifications = c.notifications ++ [.messageCallback] := by
  unfold messageCallback
  rw [userCalls_notifications]
  simp [notifications, Effect.isNotification]

theorem handleRead_notifications (c : Conn) (a : Answers) :
    (c.handleRead a).notifications = c.notifications ++ [.messageCallback] ∨
    (c.handleRead a).notifications = c.notifications ++ [.down] ++ [.closeCallback] := by
  have hread : ∀ chunk, (c.readInput chunk).notifications = c.notifications := by
    intro chunk
    simp [notifications, Effect.isNotification]
  rcases handleRead_cases c a with ⟨chunk, h⟩ | ⟨chunk, h⟩ | ⟨e, h⟩
  · left
    rw [h, messageCallback_notifications, hread]
  · right
    rw [h, handleClose_notifications, hread]
  · right
    rw [h, handleClose_notifications]
    simp [notifications, Effect.isNotification]

theorem connectDestroyed_notifications (c : Conn) (us : List UserCall) :
    (c.connectDestroyed us).notifications =
      if c.tcp.state = .kConnected then c.notifications ++ [.down] else c.notifications := by
  have hremove : ∀ d : Conn, d.removeChannel.notifications = d.notifications := by
    intro d
    simp [notifications, removeChannel, Effect.isNotification]
  unfold connectDestroyed connectDestroyedAfter
  by_cases h : c.tcp.state = .kConnected
  · rw [if_pos (by simpa using h), if_pos h, hremove, notifyDown_notifications]
  · rw [if_neg (by simpa using h), if_neg h, hremove]

/-! ## One event mask -/

/-- Any callback but `handleWrite` notifies the user or the server, which is
fine exactly until DOWN. -/
theorem runPart_quiet_iff {c : Conn} (h : c.QuietAfterDown) {p : Part} (hp : p ≠ .write)
    (a : Answers) : (c.runPart p a).QuietAfterDown ↔ ¬ c.NotifiedDown := by
  rw [← down_mem_notifications]
  cases p with
  | close =>
    simp only [QuietAfterDown, runPart, handleClose_notifications]
    exact h.downClose_iff
  | error =>
    simp only [QuietAfterDown, runPart, handleError_notifications]
    exact h.downClose_iff
  | read =>
    simp only [QuietAfterDown, runPart]
    rcases handleRead_notifications c a with hread | hread
    · rw [hread]
      exact h.message_iff
    · rw [hread]
      exact h.downClose_iff
  | write => exact absurd rfl hp

theorem runPart_write_notifications (c : Conn) (a : Answers) :
    (c.runPart .write a).notifications = c.notifications :=
  handleWrite_notifications c a.write

theorem notifications_prefix_runPart (c : Conn) (p : Part) (a : Answers) :
    c.notifications <+: (c.runPart p a).notifications := by
  cases p with
  | close =>
    simp only [runPart, handleClose_notifications, List.append_assoc]
    exact List.prefix_append _ _
  | error =>
    simp only [runPart, handleError_notifications, List.append_assoc]
    exact List.prefix_append _ _
  | read =>
    rcases handleRead_notifications c a with hread | hread
    · simp only [runPart, hread]
      exact List.prefix_append _ _
    · simp only [runPart, hread, List.append_assoc]
      exact List.prefix_append _ _
  | write =>
    rw [runPart_write_notifications]

/-- The callbacks a mask selects, `handleWrite` apart: none, one, or one that
closes the connection and another one. -/
theorem dispatch_cases (revents : EventMask) :
    ∃ ps ws, dispatch revents = ps ++ ws ∧ (ws = [] ∨ ws = [.write]) ∧
      (ps = [] ∨ (∃ p, p ≠ .write ∧ ps = [p]) ∨
        ∃ p q, (p = .close ∨ p = .error) ∧ q ≠ .write ∧ ps = [p, q]) := by
  unfold dispatch
  refine ⟨_, _, rfl, ?_, ?_⟩
  · split
    · exact Or.inr rfl
    · exact Or.inl rfl
  · -- the close callback excludes the read callback
    by_cases hread : revents.has Channel.readEvent = true
    · by_cases herr : revents.has EPOLLERR = true
      · exact Or.inr (Or.inr ⟨.error, .read, by simp [hread, herr]⟩)
      · exact Or.inr (Or.inl ⟨.read, by simp [hread, herr]⟩)
    · by_cases herr : revents.has EPOLLERR = true
      · by_cases hhup : revents.has EPOLLHUP = true
        · exact Or.inr (Or.inr ⟨.close, .error, by simp [hread, herr, hhup]⟩)
        · exact Or.inr (Or.inl ⟨.error, by simp [hread, herr, hhup]⟩)
      · by_cases hhup : revents.has EPOLLHUP = true
        · exact Or.inr (Or.inl ⟨.close, by simp [hread, herr, hhup]⟩)
        · exact Or.inl (by simp [hread, herr, hhup])

/-- The number of callbacks other than `handleWrite` a mask selects. -/
def notifiers (revents : EventMask) : Nat := (dispatch revents).countP (· != .write)

theorem closing_notifiedDown (c : Conn) {p : Part} (hp : p = .close ∨ p = .error) (a : Answers) :
    (c.runPart p a).NotifiedDown := by
  rw [← down_mem_notifications]
  rcases hp with rfl | rfl
  · simp [runPart, handleClose_notifications]
  · simp [runPart, handleError_notifications]

/-- One mask keeps a run quiet exactly when it selects at most one notifying
callback, and none after DOWN. -/
theorem handleEvent_quiet_iff {c : Conn} (h : c.QuietAfterDown) (revents : EventMask)
    (a : Part → Answers) :
    (c.handleEventWithGuard revents a).QuietAfterDown ↔
      notifiers revents ≤ if c.NotifiedDown then 0 else 1 := by
  obtain ⟨ps, ws, hdispatch, hws, hps⟩ := dispatch_cases revents
  have hwrites : ∀ d : Conn,
      (ws.foldl (fun c p => c.runPart p (a p)) d).QuietAfterDown ↔ d.QuietAfterDown := by
    intro d
    rcases hws with rfl | rfl
    · exact Iff.rfl
    · simp only [List.foldl_cons, List.foldl_nil, QuietAfterDown, runPart_write_notifications]
  have hcount : notifiers revents = ps.countP (· != .write) := by
    rw [notifiers, hdispatch, List.countP_append]
    rcases hws with rfl | rfl
    · simp
    · simp
  unfold handleEventWithGuard
  rw [hdispatch, List.foldl_append, hwrites, hcount]
  rcases hps with rfl | ⟨p, hp, rfl⟩ | ⟨p, q, hp, hq, rfl⟩
  · simp [h]
  · have hone : [p].countP (· != .write) = 1 := by simp [hp]
    rw [List.foldl_cons, List.foldl_nil, runPart_quiet_iff h hp, hone]
    split
    · rename_i hdown
      simp [hdown]
    · rename_i hdown
      simp [hdown]
  · have htwo : [p, q].countP (· != .write) = 2 := by
      rcases hp with rfl | rfl
      · simp [hq]
      · simp [hq]
    have hdown := closing_notifiedDown c hp (a p)
    have hloud : ¬ ((c.runPart p (a p)).runPart q (a q)).QuietAfterDown := by
      intro hquiet
      have hfirst : (c.runPart p (a p)).QuietAfterDown :=
        hquiet.of_prefix (notifications_prefix_runPart _ q (a q))
      exact (runPart_quiet_iff hfirst hq (a q)).mp hquiet hdown
    rw [List.foldl_cons, List.foldl_cons, List.foldl_nil, htwo]
    constructor
    · intro hquiet
      exact absurd hquiet hloud
    · intro hle
      split at hle <;> omega

/-! ## DOWN and the state -/

/-- After DOWN the connection is never `KConnected` again. -/
def DownSettled (c : Conn) : Prop := c.NotifiedDown → c.tcp.state ≠ .kConnected

theorem DownSettled.of_extends {c c' : Conn} (h : c.DownSettled)
    (hstate : c.tcp.state ≠ .kConnected → c'.tcp.state ≠ .kConnected) {Q : Effect → Prop}
    (htrace : Extends Q c.trace c'.trace) (hQ : ¬ Q .down) : c'.DownSettled := by
  intro hdown
  exact hstate (h ((htrace.mem_iff hQ).mp hdown))

theorem userCalls_downSettled {c : Conn} (h : c.DownSettled) (us : List UserCall) :
    (c.userCalls us).DownSettled := by
  refine h.of_extends ?_ (userCalls_extends c us) id
  intro hstate
  rw [(userCalls_onlyConsumes hstate us).state]
  exact hstate

theorem handleClose_downSettled (c : Conn) (us : List UserCall) :
    (c.handleClose us).DownSettled := by
  intro _
  rw [handleClose_state]
  decide

theorem emit_downSettled {c : Conn} (h : c.DownSettled) {e : Effect} (he : e ≠ .down) :
    (c.emit e).DownSettled := by
  have htrace : Extends (· = e) c.trace (c.emit e).trace := by
    apply Extends.one
    rfl
  exact h.of_extends id htrace he.symm

theorem runPart_downSettled {c : Conn} (h : c.DownSettled) (p : Part) (a : Answers) :
    (c.runPart p a).DownSettled := by
  cases p with
  | close => exact handleClose_downSettled c a.onConnection
  | error =>
    obtain ⟨e, he⟩ := handleError_eq c a.sockOpt a.onConnection
    simp only [runPart, he]
    exact handleClose_downSettled _ a.onConnection
  | read =>
    rcases handleRead_cases c a with ⟨chunk, hread⟩ | ⟨chunk, hread⟩ | ⟨e, hread⟩
    · simp only [runPart, hread, messageCallback]
      refine userCalls_downSettled (emit_downSettled ?_ (by simp)) a.onMessage
      exact emit_downSettled (c := c.setInputBuffer _) h (by simp)
    · simp only [runPart, hread]
      exact handleClose_downSettled _ a.onConnection
    · simp only [runPart, hread]
      exact handleClose_downSettled _ a.onConnection
  | write =>
    refine h.of_extends ?_ (handleWrite_extends c a.write) id
    simp [runPart]

theorem handleEvent_downSettled {c : Conn} (h : c.DownSettled) (revents : EventMask)
    (a : Part → Answers) : (c.handleEventWithGuard revents a).DownSettled := by
  unfold handleEventWithGuard
  generalize dispatch revents = ps
  induction ps generalizing c with
  | nil => exact h
  | cons p ps ih => exact ih (runPart_downSettled h p (a p))

theorem connectDestroyed_downSettled {c : Conn} (h : c.DownSettled) (us : List UserCall) :
    (c.connectDestroyed us).DownSettled := by
  unfold connectDestroyed connectDestroyedAfter
  split
  · intro _
    have hstate : (((c.setState .kDisconnected).disableAll).connectionCallback us).tcp.state =
        .kDisconnected := (notifyDown_onlyConsumes c us).state
    simp [removeChannel, hstate]
  · intro hdown
    refine h ?_
    simpa [NotifiedDown, removeChannel] using hdown

end Conn

/-! ## Whole runs -/

open Conn

/-- What a loop does with an established connection. -/
inductive LoopEvent where
  | handleEvent (revents : EventMask) (a : Part → Answers)
  | sendInLoop (data : List Byte) (w : WriteResult)
  | shutdownInLoop
  | userCalls (calls : List UserCall)
  | connectDestroyed (onConnection : List UserCall)

def loopStep (c : Conn) : LoopEvent → Conn
  | .handleEvent revents a => c.handleEventWithGuard revents a
  | .sendInLoop data w => c.sendInLoop data w
  | .shutdownInLoop => c.shutdownInLoop
  | .userCalls calls => c.userCalls calls
  | .connectDestroyed us => c.connectDestroyed us

/-- The condition on one step of a run: a mask selects at most one callback
other than `handleWrite`, and none after DOWN. -/
def LoopEvent.NotifiesOnce (c : Conn) : LoopEvent → Prop
  | .handleEvent revents _ => notifiers revents ≤ if c.NotifiedDown then 0 else 1
  | _ => True

theorem loopStep_downSettled {c : Conn} (h : c.DownSettled) (e : LoopEvent) :
    (loopStep c e).DownSettled := by
  cases e with
  | handleEvent revents a => exact handleEvent_downSettled h revents a
  | sendInLoop data w =>
    exact h.of_extends (by simp [loopStep]) (sendInLoop_extends c data w) id
  | shutdownInLoop =>
    refine h.of_extends ?_ (shutdownInLoop_extends c) (by simp)
    simp [loopStep, shutdownInLoop_tcp]
  | userCalls calls => exact userCalls_downSettled h calls
  | connectDestroyed us => exact connectDestroyed_downSettled h us

theorem loopStep_quiet_iff {c : Conn} (hdown : c.DownSettled) (h : c.QuietAfterDown)
    (e : LoopEvent) : (loopStep c e).QuietAfterDown ↔ e.NotifiesOnce c := by
  cases e with
  | handleEvent revents a => exact handleEvent_quiet_iff h revents a
  | sendInLoop data w =>
    simp only [LoopEvent.NotifiesOnce, loopStep, Conn.QuietAfterDown, sendInLoop_notifications]
    exact iff_true_intro h
  | shutdownInLoop =>
    simp only [LoopEvent.NotifiesOnce, loopStep, Conn.QuietAfterDown,
      shutdownInLoop_notifications]
    exact iff_true_intro h
  | userCalls calls =>
    simp only [LoopEvent.NotifiesOnce, loopStep, Conn.QuietAfterDown, userCalls_notifications]
    exact iff_true_intro h
  | connectDestroyed us =>
    -- its guard on `state_` is what `handleClose` lacks
    simp only [LoopEvent.NotifiesOnce, loopStep, Conn.QuietAfterDown,
      connectDestroyed_notifications, iff_true]
    split
    · rename_i hstate
      refine (QuietAfterDown.down_iff h).mpr ?_
      rw [down_mem_notifications]
      exact fun hmem => hdown hmem hstate
    · exact h

theorem upConn_notifications (self fd : Nat) (wc hw : Bool) (mark : Nat) (us : List UserCall) :
    (upConn self fd wc hw mark us).notifications = [.connectionCallback true] := by
  unfold upConn connectEstablished connectionCallback
  rw [userCalls_notifications]
  rfl

/-- Nothing after DOWN: a run is quiet after DOWN at every moment exactly when
every mask in it selects at most one notifying callback, and none after DOWN. -/
theorem nothing_after_down_iff (self fd : Nat) (wc hw : Bool) (mark : Nat)
    (onConnection : List UserCall) (es : List LoopEvent) :
    Always loopStep (upConn self fd wc hw mark onConnection) Conn.QuietAfterDown es ↔
      EachStep loopStep (upConn self fd wc hw mark onConnection)
        (fun c e => e.NotifiesOnce c) es := by
  have hns := upConn_notifications self fd wc hw mark onConnection
  refine always_iff_eachStep DownSettled ?_ (fun c e h _ => loopStep_downSettled h e) ?_ ?_ es
  · intro hdown
    rw [← down_mem_notifications, hns] at hdown
    simp at hdown
  · rw [Conn.QuietAfterDown, hns]
    refine ⟨by simp, by decide, ?_⟩
    intro pre hpre
    have hmem : Effect.closeCallback ∈ [Effect.connectionCallback true] :=
      hpre.subset (by simp)
    simp at hmem
  · intro c e hdown hquiet
    exact loopStep_quiet_iff hdown hquiet e

/-- The peer resets the connection: `EPOLLHUP` and `EPOLLERR` arrive in one
mask, and the user is told DOWN twice. -/
theorem down_notified_twice :
    ¬ Always loopStep (upConn 1 5 false false 64 []) Conn.QuietAfterDown
      [.handleEvent (EPOLLHUP ||| EPOLLERR)
        fun _ => ⟨.err .econnreset, .err .eagain, .ok .econnreset, [], []⟩] := by
  intro h
  have honce := (h _ (List.prefix_refl _)).once
  revert honce
  decide +kernel

end EchoServer
