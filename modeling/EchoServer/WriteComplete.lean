import EchoServer.GracefulClose

/-!
# Write-complete notifications

When all output has been accepted, `sendInLoop` and `handleWrite` each queue a
functor for `writeCompleteCallback_`. `handleWrite` binds the callback;
`sendInLoop` binds a pointer to the member, and executing that yields the member
without calling it. So the user is told of a send that had to be buffered, and
never of one that the socket took at once.

* `queued_handleWrite`, `sendInLoop_silent`: what the two paths queue;
* `write_complete_iff`: the notifications are right exactly in the runs where no
  direct write takes the whole string.
-/

namespace EchoServer

open Runs Trace

/-- Executing the functor calls `writeCompleteCallback_` with the connection. -/
def Functor.invokesWriteComplete : Functor → Bool
  | .writeCompleteCallback => true
  -- `std::bind` of a pointer to a data member: the call names the member
  | .writeCompleteMember => false
  | _ => false

/-- The effect hands the loop such a functor. -/
def Effect.notifies : Effect → Bool
  | .queueInLoop f => f.invokesWriteComplete
  | _ => false

namespace Conn

/-- The operations of a connection between two states of its loop. What user
code does in a callback are operations of their own. -/
inductive Op where
  | userCall (u : UserCall)
  /-- The functor of a `send` by another thread. -/
  | sendInLoop (data : List Byte) (w : WriteResult)
  /-- The store of a `shutdown` by another thread. -/
  | shutdownStore
  | shutdownInLoop
  | part (p : Part) (a : Answers)
  | connectDestroyed (sawConnected : Bool)
deriving DecidableEq, Repr

def step (c : Conn) : Op → Conn
  | .userCall u => c.userCall u
  | .sendInLoop data w => c.sendInLoop data w
  | .shutdownStore => c.setState .kDisconnecting
  | .shutdownInLoop => c.shutdownInLoop
  | .part p a => c.runPart p { a with onMessage := [], onConnection := [] }
  | .connectDestroyed saw => c.connectDestroyedAfter saw []

/-- What the operation sends, if it comes to `sendInLoop`. -/
def sends (c : Conn) : Op → Option (List Byte × WriteResult)
  | .userCall (.send data w) => if c.tcp.state = .kConnected then some (data, w) else none
  | .sendInLoop data w => some (data, w)
  | _ => none

/-- The direct write of `sendInLoop` takes the whole string. -/
def takesWhole (c : Conn) (data : List Byte) : WriteResult → Bool
  | .ok n => c.writesDirectly && decide (data.length ≤ n)
  | .err _ => false

/-- The operation is a send whose direct write takes the whole string. -/
def SendsWhole (c : Conn) (op : Op) : Prop :=
  ∃ data w, c.sends op = some (data, w) ∧ c.takesWhole data w = true

/-- The operation is a `handleWrite` that drains the output buffer. -/
def DrainsOutput (c : Conn) (op : Op) : Prop :=
  ∃ a, op = .part .write a ∧ c.drains a.write = true

/-- All output handed to the connection has now been accepted. -/
def Completes (c : Conn) (op : Op) : Prop := c.SendsWhole op ∨ c.DrainsOutput op

/-- The notifications that the operation queues. -/
def queuedBy (c : Conn) (op : Op) : List Effect :=
  ((c.step op).trace.drop c.trace.length).filter Effect.notifies

/-- One notification when the output is complete and none otherwise, and none
while output is pending. -/
structure NotifiesRight (c : Conn) (op : Op) : Prop where
  once : c.Completes op → (c.queuedBy op).length = 1
  never : ¬ c.Completes op → c.queuedBy op = []
  notPending : c.queuedBy op ≠ [] → (c.step op).tcp.outputBuffer.readableBytes = 0

/-! ## The callback stays set -/

theorem Moves.writeCompleteCallback {c d : Conn} (h : Moves c d) :
    d.tcp.writeCompleteCallback = c.tcp.writeCompleteCallback := by
  induction h with
  | refl => rfl
  | emit _ _ ih => exact ih
  | setEvents _ _ ih => exact ih
  | setInputBuffer _ _ ih => exact ih
  | setOutputBuffer _ _ ih => exact ih
  | disconnecting _ ih => exact ih
  | queueShutdown _ _ ih => exact ih
  | notifyDown _ ih => exact ih

theorem step_writeCompleteCallback (c : Conn) (op : Op) :
    (c.step op).tcp.writeCompleteCallback = c.tcp.writeCompleteCallback := by
  cases op with
  | userCall u => exact (userCall_moves c u).writeCompleteCallback
  | sendInLoop data w => exact (sendInLoop_moves c data w).writeCompleteCallback
  | shutdownStore => rfl
  | shutdownInLoop => exact (shutdownInLoop_moves c).writeCompleteCallback
  | part p a => exact (runPart_moves c p _).writeCompleteCallback
  | connectDestroyed saw =>
    cases saw with
    | true => exact (notifyDown_moves c []).writeCompleteCallback
    | false => rfl

/-! ## What an operation queues -/

/-- The trace grows without a notification. -/
def Silent (c c' : Conn) : Prop := Extends (fun e => e.notifies = false) c.trace c'.trace

theorem Silent.filter_drop {c c' : Conn} (h : Silent c c') :
    (c'.trace.drop c.trace.length).filter Effect.notifies = [] := by
  rcases h with ⟨es, hes, hall⟩
  rw [hes, List.drop_left, List.filter_eq_nil_iff]
  intro e he
  simp [hall e he]

theorem Silent.emit {c c' : Conn} (h : Silent c c') {e : Effect} (he : e.notifies = false) :
    Silent c (c'.emit e) :=
  h.trans (Extends.one (Q := fun e => e.notifies = false) he c'.trace)

theorem IsUser.silent {e : Effect} (h : IsUser e) : e.notifies = false := by
  cases e with
  | queueInLoop f =>
    cases f with
    | writeCompleteCallback => exact h.elim
    | _ => rfl
  | _ => rfl

theorem IsClosing.silent {e : Effect} (h : IsClosing e) : e.notifies = false := by
  cases e with
  | queueInLoop f => exact h.elim
  | _ => rfl

/-- `sendInLoop` never queues a functor that calls the callback. -/
theorem sendInLoop_silent (c : Conn) (data : List Byte) (w : WriteResult) :
    Silent c (c.sendInLoop data w) :=
  (sendInLoop_extends c data w).mono fun _ he => he.isUser.silent

theorem userCalls_silent (c : Conn) (us : List UserCall) : Silent c (c.userCalls us) :=
  (userCalls_extends c us).mono fun _ => IsUser.silent

theorem handleClose_silent (c : Conn) (us : List UserCall) : Silent c (c.handleClose us) :=
  (handleClose_extends c us).mono fun _ => IsClosing.silent

/-- `handleWrite` queues one exactly when it drains. -/
theorem queued_handleWrite {c : Conn} (hwc : c.tcp.writeCompleteCallback = true)
    (w : WriteResult) :
    ((c.handleWrite w).trace.drop c.trace.length).filter Effect.notifies =
      if c.drains w then [.queueInLoop .writeCompleteCallback] else [] := by
  by_cases hdrains : c.drains w = true
  · rw [if_pos hdrains, handleWrite_of_drains hdrains]
    have hset : (((c.emit (.write c.offered w)).retrieveOutput
        (c.writeCount w).toNat).disableWriting).tcp.writeCompleteCallback = true := hwc
    unfold afterDrain queueWriteComplete
    rw [if_pos hset]
    rcases shutdownIfDisconnecting_extends (((c.emit (.write c.offered w)).retrieveOutput
      (c.writeCount w).toNat).disableWriting.queueInLoop .writeCompleteCallback) with
      ⟨es, hes, hall⟩
    have hsilent : es.filter Effect.notifies = [] := by
      rw [List.filter_eq_nil_iff]
      intro e he
      rw [hall e he]
      simp [Effect.notifies]
    have hqueued : (.write c.offered w :: .queueInLoop .writeCompleteCallback :: es).filter
        Effect.notifies = [.queueInLoop .writeCompleteCallback] := by
      rw [List.filter_cons_of_neg (by simp [Effect.notifies]), List.filter_cons_of_pos rfl, hsilent]
    rw [hes]
    simpa [queueInLoop, disableWriting, retrieveOutput] using hqueued
  · rw [if_neg hdrains]
    rcases handleWrite_trace_of_not_drains (by simpa using hdrains) with hsame | hwrite
    · simp [hsame]
    · simp [hwrite, Effect.notifies]

/-- The handlers other than `handleWrite` queue none. -/
theorem runPart_silent (c : Conn) {p : Part} (hp : p ≠ .write) (a : Answers) :
    Silent c (c.runPart p a) := by
  have hemit : ∀ e : Effect, e.notifies = false → Silent c (c.emit e) :=
    fun e he => Silent.emit (Extends.refl _ _) he
  cases p with
  | close => exact handleClose_silent c a.onConnection
  | error =>
    rcases handleError_eq c a.sockOpt a.onConnection with ⟨e, he⟩
    rw [runPart, he]
    exact (hemit _ rfl).trans (handleClose_silent _ _)
  | read =>
    rw [runPart]
    rcases handleRead_cases c a with ⟨chunk, hread⟩ | ⟨chunk, hread⟩ | ⟨e, hread⟩
    · rw [hread]
      have hcalled : Silent c ((c.readInput chunk).emit .messageCallback) :=
        Silent.emit (hemit _ rfl) rfl
      exact hcalled.trans (userCalls_silent _ _)
    · rw [hread]
      have hinput : Silent c (c.readInput chunk) := hemit _ rfl
      exact hinput.trans (handleClose_silent _ _)
    · rw [hread]
      exact (hemit _ rfl).trans (handleClose_silent _ _)
  | write => exact absurd rfl hp

theorem queuedBy_of_drains {c : Conn} (hwc : c.tcp.writeCompleteCallback = true) {op : Op}
    (h : c.DrainsOutput op) : c.queuedBy op = [.queueInLoop .writeCompleteCallback] := by
  rcases h with ⟨a, rfl, hdrains⟩
  exact (queued_handleWrite hwc a.write).trans (if_pos hdrains)

theorem queuedBy_of_not_drains {c : Conn} (hwc : c.tcp.writeCompleteCallback = true) {op : Op}
    (h : ¬ c.DrainsOutput op) : c.queuedBy op = [] := by
  cases op with
  | userCall u => exact (userCalls_silent c [u]).filter_drop
  | sendInLoop data w => exact (sendInLoop_silent c data w).filter_drop
  | shutdownStore => simp [queuedBy, step, Effect.notifies]
  | shutdownInLoop =>
    have hsilent : Silent c c.shutdownInLoop := by
      refine (shutdownInLoop_extends c).mono ?_
      rintro e rfl
      rfl
    exact hsilent.filter_drop
  | part p a =>
    by_cases hp : p = .write
    · subst hp
      have hnot : ¬ c.drains a.write = true := fun hdrains => h ⟨a, rfl, hdrains⟩
      exact (queued_handleWrite hwc a.write).trans (if_neg hnot)
    · exact (runPart_silent c hp _).filter_drop
  | connectDestroyed saw =>
    cases saw with
    | true =>
      have hdown : Silent c (((c.setState .kDisconnected).disableAll).connectionCallback []) :=
        (notifyDown_extends c []).mono fun _ => IsClosing.silent
      exact (Silent.emit hdown (e := .removeChannel) rfl).filter_drop
    | false => simp [queuedBy, step, connectDestroyedAfter, removeChannel, Effect.notifies]

theorem SendsWhole.not_drains {c : Conn} {op : Op} (h : c.SendsWhole op) :
    ¬ c.DrainsOutput op := by
  rintro ⟨a, rfl, _⟩
  rcases h with ⟨data, w, hsends, _⟩
  simp [sends] at hsends

theorem notifiesRight_iff {c : Conn} (hwc : c.tcp.writeCompleteCallback = true) (op : Op) :
    c.NotifiesRight op ↔ ¬ c.SendsWhole op := by
  constructor
  · intro h hwhole
    -- the functor that is queued calls nothing
    have hone := h.once (Or.inl hwhole)
    rw [queuedBy_of_not_drains hwc hwhole.not_drains] at hone
    simp at hone
  · intro hwhole
    by_cases hdrains : c.DrainsOutput op
    · refine ⟨?_, ?_, ?_⟩
      · intro _
        rw [queuedBy_of_drains hwc hdrains]
        rfl
      · intro hnot
        exact absurd (Or.inr hdrains) hnot
      · intro _
        rcases hdrains with ⟨a, rfl, hd⟩
        exact (Buffer.readable_eq_nil_iff _).mp (handleWrite_readable_of_drains hd)
    · have hnone := queuedBy_of_not_drains hwc hdrains
      refine ⟨?_, fun _ => hnone, fun hsome => absurd hnone hsome⟩
      rintro (hsends | hd)
      · exact absurd hsends hwhole
      · exact absurd hd hdrains

end Conn

open Conn

/-- The write-complete callback is notified once for each output that is through, exactly
in the runs in which no `send` gets rid of all its bytes at once. -/
theorem write_complete_iff (self fd : Nat) (hw : Bool) (mark : Nat) (ops : List Op) :
    EachStep step (upConn self fd true hw mark []) NotifiesRight ops ↔
      EachStep step (upConn self fd true hw mark []) (fun c op => ¬ c.SendsWhole op) ops := by
  have hwc : ∀ pre, (run step (upConn self fd true hw mark []) pre).tcp.writeCompleteCallback =
      true := by
    intro pre
    apply run_invariant fun c : Conn => c.tcp.writeCompleteCallback = true
    · intro c op h
      rw [step_writeCompleteCallback]
      exact h
    · rfl
  constructor
  · intro h pre op hpre
    exact (notifiesRight_iff (hwc pre) op).mp (h pre op hpre)
  · intro h pre op hpre
    exact (notifiesRight_iff (hwc pre) op).mpr (h pre op hpre)

/-- One `send`, and the socket takes all of it. -/
theorem send_taken_at_once_not_notified :
    ¬ EachStep step (upConn 1 7 true false 64 []) NotifiesRight
      [.userCall (.send [104, 105] (.ok 2))] := by
  intro h
  have hright := h [] _ (List.prefix_refl _)
  have hwhole : (upConn 1 7 true false 64 []).Completes (.userCall (.send [104, 105] (.ok 2))) :=
    Or.inl ⟨_, _, rfl, by decide⟩
  have hone := hright.once hwhole
  rw [queuedBy_of_not_drains rfl (SendsWhole.not_drains ⟨_, _, rfl, by decide⟩)] at hone
  simp at hone

end EchoServer
