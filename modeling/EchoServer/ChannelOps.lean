import EchoServer.Lib.Runs
import EchoServer.Poller

/-!
# The operations of the channels of one poller

Any number of channels with distinct descriptors share an `EPollPoller`, and
their public operations come in any order.

* `call`: the `epoll_ctl` call an operation makes, if any; `perform_poller`
  ties it to the code;
* `Agrees`, `bookkeeping_agrees`: the index of a channel, its entry in
  `channels_` and the kernel always say the same, and no call fails;
* `no_interest_unregistered_iff`: `updateChannel` registers a channel that is
  `New` or `Deleted` without looking at its events.
-/

namespace EchoServer

open Runs Channel EPollPoller

/-! ## Operations -/

inductive ChannelOp where
  | enableReading
  | enableWriting
  | disableReading
  | disableWriting
  | disableAll
  | remove
deriving DecidableEq, Repr

namespace ChannelOp

/-- What the operation makes of `events_`. -/
def apply : ChannelOp → EventMask → EventMask
  | .enableReading, e => e ||| readEvent
  | .enableWriting, e => e ||| writeEvent
  | .disableReading, e => e &&& ~~~readEvent
  | .disableWriting, e => e &&& ~~~writeEvent
  | .disableAll, _ => noneEvent
  | .remove, e => e

/-- The operation on a channel: `Channel::update` or `Channel::remove`. -/
def perform (op : ChannelOp) (p : EPollPoller) (ch : Channel) : EPollPoller × Channel :=
  match op with
  | .remove => p.removeChannel ch
  | op => p.setEvents ch (op.apply ch.events)

theorem perform_of_ne_remove {op : ChannelOp} (h : op ≠ .remove) (p : EPollPoller)
    (ch : Channel) : op.perform p ch = p.setEvents ch (op.apply ch.events) := by
  cases op with
  | remove => exact absurd rfl h
  | _ => rfl

/-! ## The system call of an operation -/

/-- What `updateChannel` passes to `update`. -/
def updateCall (ch : Channel) : EpollOp × Channel :=
  match ch.index with
  | .new => (.add, { ch with index := .added })
  | .deleted => (.add, { ch with index := .added })
  | .added =>
    if ch.isNoneEvent then (.del, { ch with index := .deleted }) else (.mod, ch)

/-- What the operation passes to `update`, if it gets there. -/
def call (op : ChannelOp) (ch : Channel) : Option (EpollOp × Channel) :=
  match op with
  | .remove => if ch.index = .added then some (.del, ch) else none
  | op => some (updateCall { ch with events := op.apply ch.events })

theorem call_of_ne_remove {op : ChannelOp} (h : op ≠ .remove) (ch : Channel) :
    op.call ch = some (updateCall { ch with events := op.apply ch.events }) := by
  cases op with
  | remove => exact absurd rfl h
  | _ => rfl

/-- The poller's map after the operation. -/
def mapAfter (op : ChannelOp) (p : EPollPoller) (ch : Channel) : Nat → Option Nat :=
  match op with
  | .remove => Function.update p.channels ch.fd none
  | _ => if ch.index = .new then Function.update p.channels ch.fd (some ch.self) else p.channels

/-- An operation changes the map, and then makes its call. -/
theorem perform_poller (op : ChannelOp) (p : EPollPoller) (ch : Channel) :
    (op.perform p ch).1 =
      match op.call ch with
      | some (ctl, ch') => { p with channels := op.mapAfter p ch }.update ctl ch'
      | none => { p with channels := op.mapAfter p ch } := by
  by_cases hop : op = .remove
  · subst hop
    by_cases hindex : ch.index = .added
    · simp [perform, call, mapAfter, removeChannel, hindex]
    · simp [perform, call, mapAfter, removeChannel, hindex]
  · have hmap : op.mapAfter p ch =
        if ch.index = .new then Function.update p.channels ch.fd (some ch.self)
        else p.channels := by
      cases op with
      | remove => exact absurd rfl hop
      | _ => rfl
    rw [perform_of_ne_remove hop, call_of_ne_remove hop, hmap]
    cases hindex : ch.index with
    | new => simp [setEvents, updateChannel, updateCall, hindex]
    | deleted => simp [setEvents, updateChannel, updateCall, hindex]
    | added =>
      by_cases hnone : isNoneEvent { ch with events := op.apply ch.events } = true
      · simp only [hindex] at hnone
        simp [setEvents, updateChannel, updateCall, hindex, hnone]
      · simp only [hindex] at hnone
        simp [setEvents, updateChannel, updateCall, hindex, hnone]

/-- The kernel accepts the call of the operation. -/
def Succeeds (op : ChannelOp) (p : EPollPoller) (ch : Channel) : Prop :=
  ∀ ctl ch', op.call ch = some (ctl, ch') →
    epollCtl p.epoll ctl ch'.fd ⟨ch'.self, ch'.events⟩ ≠ none

/-! ## One operation -/

theorem perform_coherent {p : EPollPoller} {ch : Channel} (h : p.Coherent ch) (op : ChannelOp) :
    (op.perform p ch).1.Coherent (op.perform p ch).2 := by
  by_cases hop : op = .remove
  · subst hop
    exact removeChannel_coherent h
  · rw [perform_of_ne_remove hop]
    exact setEvents_coherent h _

/-- `ADD` goes to descriptors that are not registered, `MOD` and `DEL` to
descriptors that are. -/
theorem succeeds_of_coherent {p : EPollPoller} {ch : Channel} (h : p.Coherent ch)
    (op : ChannelOp) : op.Succeeds p ch := by
  intro ctl ch' hcall
  have hreg := h.2
  by_cases hop : op = .remove
  · subst hop
    by_cases hindex : ch.index = .added
    · simp only [call, if_pos hindex, Option.some.injEq, Prod.mk.injEq] at hcall
      rcases hcall with ⟨rfl, rfl⟩
      simp [epollCtl, hreg, hindex]
    · simp [call, hindex] at hcall
  · rw [call_of_ne_remove hop, Option.some.injEq, updateCall] at hcall
    cases hindex : ch.index with
    | new =>
      simp only [hindex, Prod.mk.injEq] at hcall hreg
      rcases hcall with ⟨rfl, rfl⟩
      simp [epollCtl, hreg]
    | deleted =>
      simp only [hindex, Prod.mk.injEq] at hcall hreg
      rcases hcall with ⟨rfl, rfl⟩
      simp [epollCtl, hreg]
    | added =>
      simp only [hindex] at hcall hreg
      split at hcall
      · rcases Prod.mk.inj hcall with ⟨rfl, rfl⟩
        simp [epollCtl, hreg]
      · rcases Prod.mk.inj hcall with ⟨rfl, rfl⟩
        simp [epollCtl, hreg]

/-- A call that the kernel accepts does not abort the process. -/
theorem update_fatal {p : EPollPoller} {ctl : EpollOp} {ch : Channel}
    (h : epollCtl p.epoll ctl ch.fd ⟨ch.self, ch.events⟩ ≠ none) :
    (p.update ctl ch).fatal = p.fatal := by
  unfold update
  split
  · rfl
  · rename_i hfail
    exact absurd hfail h

theorem perform_fatal {p : EPollPoller} {ch : Channel} {op : ChannelOp} (h : op.Succeeds p ch) :
    (op.perform p ch).1.fatal = p.fatal := by
  rw [perform_poller]
  split
  · rename_i ctl ch' hcall
    have hctl : epollCtl { p with channels := op.mapAfter p ch }.epoll ctl ch'.fd
        ⟨ch'.self, ch'.events⟩ ≠ none := h ctl ch' hcall
    exact update_fatal hctl
  · rfl

theorem perform_fd (op : ChannelOp) (p : EPollPoller) (ch : Channel) :
    (op.perform p ch).2.fd = ch.fd := by
  by_cases hop : op = .remove
  · subst hop
    show (p.removeChannel ch).2.fd = ch.fd
    rw [removeChannel_channel]
  · rw [perform_of_ne_remove hop, setEvents_fd]

theorem perform_epoll_ne (op : ChannelOp) (p : EPollPoller) (ch : Channel) {fd : Nat}
    (hne : fd ≠ ch.fd) : (op.perform p ch).1.epoll fd = p.epoll fd := by
  by_cases hop : op = .remove
  · subst hop
    exact removeChannel_epoll_ne p ch hne
  · rw [perform_of_ne_remove hop, setEvents_epoll_ne p ch _ hne]

theorem perform_channels_ne (op : ChannelOp) (p : EPollPoller) (ch : Channel) {fd : Nat}
    (hne : fd ≠ ch.fd) : (op.perform p ch).1.channels fd = p.channels fd := by
  by_cases hop : op = .remove
  · subst hop
    exact removeChannel_channels_ne p ch hne
  · rw [perform_of_ne_remove hop, setEvents_channels_ne p ch _ hne]

/-- The index after an operation other than `remove`. -/
theorem perform_index {op : ChannelOp} (hop : op ≠ .remove) (p : EPollPoller) (ch : Channel) :
    (op.perform p ch).2.index =
      if ch.index = .added ∧ op.apply ch.events = noneEvent then .deleted else .added := by
  rw [perform_of_ne_remove hop]
  cases hindex : ch.index with
  | new => simp [setEvents, updateChannel, hindex]
  | deleted => simp [setEvents, updateChannel, hindex]
  | added =>
    by_cases hnone : op.apply ch.events = noneEvent
    · simp [setEvents, updateChannel, hindex, isNoneEvent, hnone]
    · simp [setEvents, updateChannel, hindex, isNoneEvent, hnone]

theorem perform_events {op : ChannelOp} (hop : op ≠ .remove) (p : EPollPoller) (ch : Channel) :
    (op.perform p ch).2.events = op.apply ch.events := by
  rw [perform_of_ne_remove hop, setEvents_events]

end ChannelOp

/-! ## The channels of a poller -/

/-- Channels by name, with their addresses and their descriptors. -/
structure ChannelFamily (ι : Type u) where
  self : ι → Nat
  fd : ι → Nat
  fd_injective : Function.Injective fd

structure PolledChannels (ι : Type u) where
  poller : EPollPoller
  channel : ι → Channel

namespace PolledChannels

variable {ι : Type u} [DecidableEq ι]

/-- The channels as constructed, on a poller without any. -/
def init (cs : ChannelFamily ι) : PolledChannels ι where
  poller := EPollPoller.new
  channel i := Channel.new (cs.self i) (cs.fd i)

/-- The operation `e.2` of the channel `e.1`. -/
def step (s : PolledChannels ι) (e : ι × ChannelOp) : PolledChannels ι where
  poller := (e.2.perform s.poller (s.channel e.1)).1
  channel := Function.update s.channel e.1 (e.2.perform s.poller (s.channel e.1)).2

@[simp] theorem step_channel_self (s : PolledChannels ι) (i : ι) (op : ChannelOp) :
    (s.step (i, op)).channel i = (op.perform s.poller (s.channel i)).2 := by
  simp [step]

theorem step_channel_ne (s : PolledChannels ι) {i j : ι} (hne : j ≠ i) (op : ChannelOp) :
    (s.step (i, op)).channel j = s.channel j := by
  simp [step, hne]

/-! ## Bookkeeping -/

/-- The three views of every channel agree, and nothing has failed. -/
structure Agrees (s : PolledChannels ι) : Prop where
  /-- Registered exactly when `Added`, with this channel and its events. -/
  registered : ∀ i r, s.poller.epoll (s.channel i).fd = some r ↔
    (s.channel i).index = .added ∧ r = ⟨(s.channel i).self, (s.channel i).events⟩
  known : ∀ i, s.poller.hasChannel (s.channel i) = true ↔
    (s.channel i).index = .added ∨ (s.channel i).index = .deleted
  alive : s.poller.fatal = false

/-- An operation makes no failing call, and leaves the other channels and
their standing alone. -/
structure Isolated (s : PolledChannels ι) (e : ι × ChannelOp) : Prop where
  succeeds : e.2.Succeeds s.poller (s.channel e.1)
  channel : ∀ j, j ≠ e.1 → (s.step e).channel j = s.channel j
  epoll : ∀ j, j ≠ e.1 →
    (s.step e).poller.epoll (s.channel j).fd = s.poller.epoll (s.channel j).fd
  known : ∀ j, j ≠ e.1 →
    (s.step e).poller.hasChannel (s.channel j) = s.poller.hasChannel (s.channel j)

structure Inv (s : PolledChannels ι) : Prop where
  coherent : ∀ i, s.poller.Coherent (s.channel i)
  distinct : Function.Injective fun i => (s.channel i).fd
  alive : s.poller.fatal = false

omit [DecidableEq ι] in
theorem init_inv (cs : ChannelFamily ι) : (init cs).Inv := by
  constructor
  · intro i
    exact new_coherent (cs.self i) (cs.fd i)
  · exact cs.fd_injective
  · rfl

omit [DecidableEq ι] in
theorem Inv.agrees {s : PolledChannels ι} (h : s.Inv) : s.Agrees := by
  constructor
  · intro i r
    rw [(h.coherent i).2]
    by_cases hindex : (s.channel i).index = .added
    · simp [hindex, eq_comm]
    · simp [hindex]
  · intro i
    unfold hasChannel
    rw [(h.coherent i).1]
    cases hindex : (s.channel i).index with
    | new => simp
    | added => simp
    | deleted => simp
  · exact h.alive

theorem Inv.isolated {s : PolledChannels ι} (h : s.Inv) (e : ι × ChannelOp) : s.Isolated e := by
  have hfd : ∀ j, j ≠ e.1 → (s.channel j).fd ≠ (s.channel e.1).fd := by
    intro j hne heq
    exact hne (h.distinct heq)
  constructor
  · exact ChannelOp.succeeds_of_coherent (h.coherent e.1) e.2
  · intro j hne
    exact step_channel_ne s hne e.2
  · intro j hne
    exact ChannelOp.perform_epoll_ne e.2 s.poller (s.channel e.1) (hfd j hne)
  · intro j hne
    have hmap := ChannelOp.perform_channels_ne e.2 s.poller (s.channel e.1) (hfd j hne)
    show ((e.2.perform s.poller (s.channel e.1)).1.channels (s.channel j).fd == _) = _
    rw [hmap]
    rfl

theorem Inv.step {s : PolledChannels ι} (h : s.Inv) (e : ι × ChannelOp) : (s.step e).Inv := by
  rcases e with ⟨i, op⟩
  have hisolated := h.isolated (i, op)
  have hfd : ∀ j, ((s.step (i, op)).channel j).fd = (s.channel j).fd := by
    intro j
    by_cases hne : j = i
    · subst hne
      rw [step_channel_self, ChannelOp.perform_fd]
    · rw [step_channel_ne s hne]
  constructor
  · intro j
    by_cases hne : j = i
    · -- the channel operated on
      subst hne
      rw [step_channel_self]
      exact ChannelOp.perform_coherent (h.coherent j) op
    · -- any other channel, on its own descriptor
      have hother : (s.channel j).fd ≠ (s.channel i).fd := fun heq => hne (h.distinct heq)
      rw [step_channel_ne s hne]
      constructor
      · show (op.perform s.poller (s.channel i)).1.channels _ = _
        rw [ChannelOp.perform_channels_ne op s.poller (s.channel i) hother]
        exact (h.coherent j).1
      · show (op.perform s.poller (s.channel i)).1.epoll _ = _
        rw [ChannelOp.perform_epoll_ne op s.poller (s.channel i) hother]
        exact (h.coherent j).2
  · intro j k heq
    have heq' : (s.channel j).fd = (s.channel k).fd := by
      rw [← hfd j, ← hfd k]
      exact heq
    exact h.distinct heq'
  · show (op.perform s.poller (s.channel i)).1.fatal = false
    rw [ChannelOp.perform_fatal hisolated.succeeds]
    exact h.alive

/-- Whatever is done with the channels of a poller, index, map and kernel agree
in every state, and no operation fails or touches another channel. -/
theorem bookkeeping_agrees (cs : ChannelFamily ι) (es : List (ι × ChannelOp)) :
    Always step (init cs) Agrees es ∧ EachStep step (init cs) Isolated es := by
  have hinv : Always step (init cs) Inv es :=
    fun pre _ => run_invariant Inv (fun _ e h => Inv.step h e) (init_inv cs) pre
  exact ⟨hinv.mono fun _ h => h.agrees, hinv.eachStep fun _ e h => h.isolated e⟩

/-! ## Channels without interest -/

/-- A channel with no events is not registered. -/
def NoneUnregistered (s : PolledChannels ι) : Prop :=
  ∀ i, (s.channel i).events = noneEvent → s.poller.epoll (s.channel i).fd = none

/-- An operation that leaves no events is done on a channel that is `Added`. -/
def DisablesAdded (s : PolledChannels ι) (e : ι × ChannelOp) : Prop :=
  e.2 ≠ .remove → e.2.apply (s.channel e.1).events = noneEvent →
    (s.channel e.1).index = .added

omit [DecidableEq ι] in
theorem Inv.unregistered_iff {s : PolledChannels ι} (h : s.Inv) (i : ι) :
    s.poller.epoll (s.channel i).fd = none ↔ (s.channel i).index ≠ .added := by
  rw [(h.coherent i).2]
  by_cases hindex : (s.channel i).index = .added
  · simp [hindex]
  · simp [hindex]

theorem noneUnregistered_step_iff {s : PolledChannels ι} (h : s.Inv) (hnone : s.NoneUnregistered)
    (e : ι × ChannelOp) : (s.step e).NoneUnregistered ↔ s.DisablesAdded e := by
  rcases e with ⟨i, op⟩
  have hothers : ∀ j, j ≠ i → ((s.step (i, op)).channel j).events = noneEvent →
      (s.step (i, op)).poller.epoll ((s.step (i, op)).channel j).fd = none := by
    intro j hne hevents
    rw [step_channel_ne s hne] at hevents ⊢
    rw [(h.isolated (i, op)).epoll j hne]
    exact hnone j hevents
  have hself := (h.step (i, op)).unregistered_iff i
  by_cases hop : op = .remove
  · -- `remove` ends in `New`
    have hnew : ((s.step (i, op)).channel i).index ≠ .added := by
      subst hop
      show ((s.step (i, .remove)).channel i).index ≠ .added
      rw [step_channel_self]
      show (s.poller.removeChannel (s.channel i)).2.index ≠ .added
      rw [removeChannel_channel]
      simp
    constructor
    · intro _ hne
      exact absurd hop hne
    · intro _ j hevents
      by_cases hj : j = i
      · subst hj
        exact hself.mpr hnew
      · exact hothers j hj hevents
  · have hindex := ChannelOp.perform_index hop s.poller (s.channel i)
    have hafter := ChannelOp.perform_events hop s.poller (s.channel i)
    rw [← step_channel_self] at hindex hafter
    constructor
    · intro hnext _ hleft
      by_contra hnot
      -- it was `New` or `Deleted`: now it is `Added`
      have hadded : ((s.step (i, op)).channel i).index = .added := by
        rw [hindex, if_neg fun hboth => hnot hboth.1]
      exact hself.mp (hnext i (hafter.trans hleft)) hadded
    · intro hdisables j hevents
      by_cases hj : j = i
      · subst hj
        have hleft : op.apply (s.channel j).events = noneEvent := hafter.symm.trans hevents
        have hdeleted : ((s.step (j, op)).channel j).index = .deleted := by
          rw [hindex, if_pos ⟨hdisables hop hleft, hleft⟩]
        rw [hself, hdeleted]
        decide
      · exact hothers j hj hevents

/-- Whatever it does to the events, an operation registers a channel that is
`New` or `Deleted`. -/
theorem perform_registers {s : PolledChannels ι} (h : s.Inv) {i : ι} {op : ChannelOp}
    (hop : op ≠ .remove) (hindex : (s.channel i).index ≠ .added) :
    (s.step (i, op)).poller.epoll ≠ s.poller.epoll := by
  intro heq
  have hnone := (h.unregistered_iff i).mpr hindex
  have hadded : ((s.step (i, op)).channel i).index = .added := by
    rw [step_channel_self, ChannelOp.perform_index hop, if_neg fun hboth => hindex hboth.1]
  have hfd : ((s.step (i, op)).channel i).fd = (s.channel i).fd := by
    rw [step_channel_self, ChannelOp.perform_fd]
  refine ((h.step (i, op)).unregistered_iff i).mp ?_ hadded
  rw [hfd, heq]
  exact hnone

/-- `disableAll` turns `Added` into `Deleted` and everything else into `Added`. -/
theorem disableAll_twice (s : PolledChannels ι) (i : ι) :
    (s.step (i, .disableAll)).step (i, .disableAll) ≠ s.step (i, .disableAll) := by
  intro heq
  have hop : ChannelOp.disableAll ≠ .remove := by decide
  have hindex := congrArg (fun t : PolledChannels ι => (t.channel i).index) heq
  simp only [step_channel_self, ChannelOp.perform_index hop, ChannelOp.apply] at hindex
  by_cases hadded : (s.channel i).index = .added
  · simp [hadded] at hindex
  · simp [hadded] at hindex

/-- In every state of a run the channels without events are unregistered
exactly when all operations that leave a channel without events are done on
`Added` ones; on any other channel without events, disabling changes the
kernel's set, and `disableAll` is never idempotent. -/
theorem no_interest_unregistered_iff (cs : ChannelFamily ι) (es : List (ι × ChannelOp)) :
    (Always step (init cs) NoneUnregistered es ↔ EachStep step (init cs) DisablesAdded es) ∧
    (∀ i op, op ≠ .remove → op.apply ((run step (init cs) es).channel i).events = noneEvent →
      ((run step (init cs) es).channel i).index ≠ .added →
      ((run step (init cs) es).step (i, op)).poller.epoll ≠ (run step (init cs) es).poller.epoll) ∧
    ∀ i, ((run step (init cs) es).step (i, .disableAll)).step (i, .disableAll) ≠
      (run step (init cs) es).step (i, .disableAll) := by
  have hinv : ∀ pre, (run step (init cs) pre).Inv :=
    fun pre => run_invariant Inv (fun _ e h => Inv.step h e) (init_inv cs) pre
  refine ⟨?_, ?_, ?_⟩
  · refine always_iff_eachStep Inv (init_inv cs) (fun _ e h _ => h.step e) ?_ ?_ es
    · intro i _
      rfl
    · intro s e h hnone
      exact noneUnregistered_step_iff h hnone e
  · intro i op hop _ hindex
    exact perform_registers (hinv es) hop hindex
  · intro i
    exact disableAll_twice _ i

/-- `handleClose` twice: the second `disableAll` puts the channel back. -/
theorem disabled_channel_registered :
    ¬ Always step (init (⟨fun _ => 7, fun _ => 5, fun _ _ _ => rfl⟩ : ChannelFamily Unit))
      NoneUnregistered [((), .enableReading), ((), .disableAll), ((), .disableAll)] := by
  intro h
  have hlast := h _ (List.prefix_refl _) () (by decide)
  exact absurd hlast (by decide)

end PolledChannels

end EchoServer
