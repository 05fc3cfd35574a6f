import Mathlib.Logic.Function.Basic

/-!
# Channel and EPollPoller

A channel is one descriptor with the events its owner is interested in and an
index that records where it stands in the poller. The poller keeps the map
`channels_` from descriptors to channels and, in the kernel, the interest set
of its epoll descriptor.

* `setEvents` and `remove` are what the six public operations of a channel
  come down to: store the event set, then `updateChannel` or `removeChannel`;
* `Coherent` relates the three views of one channel: its index, its entry in
  `channels_` and its registration in the kernel; `setEvents_coherent` and
  `removeChannel_coherent` keep it;
* `setEvents_channels_ne` and its companions: other descriptors are untouched.
-/

namespace EchoServer

/-! ## Event masks -/

abbrev EventMask := BitVec 32

def EPOLLIN : EventMask := 0x001#32
def EPOLLPRI : EventMask := 0x002#32
def EPOLLOUT : EventMask := 0x004#32
def EPOLLERR : EventMask := 0x008#32
def EPOLLHUP : EventMask := 0x010#32

/-- `mask & bits`, read as a condition. -/
def EventMask.has (mask bits : EventMask) : Bool := mask &&& bits != 0#32

/-- Where a channel stands in its poller: `New`, `Added` or `Deleted`. -/
inductive Index where
  | new
  | added
  | deleted
deriving DecidableEq, Repr

structure Channel where
  /-- The address of the channel, what `epoll_event.data.ptr` holds. -/
  self : Nat
  fd : Nat
  events : EventMask
  index : Index
deriving DecidableEq, Repr

namespace Channel

def noneEvent : EventMask := 0#32
def readEvent : EventMask := EPOLLIN ||| EPOLLPRI
def writeEvent : EventMask := EPOLLOUT

/-- `Channel(loop, fd)`. -/
def new (self fd : Nat) : Channel where
  self := self
  fd := fd
  events := noneEvent
  index := .new

def isNoneEvent (ch : Channel) : Bool := ch.events == noneEvent

def isWriting (ch : Channel) : Bool := ch.events.has writeEvent

def isReading (ch : Channel) : Bool := ch.events.has readEvent

end Channel

open Channel

@[simp] theorem has_writeEvent_or (e : EventMask) : (e ||| writeEvent).has writeEvent = true := by
  have h : (e ||| writeEvent) &&& writeEvent = writeEvent := by
    ext i hi
    simp only [BitVec.getElem_and, BitVec.getElem_or]
    cases e[i] <;> cases writeEvent[i] <;> rfl
  simp only [EventMask.has, h]
  decide

@[simp] theorem has_writeEvent_andNot (e : EventMask) :
    (e &&& ~~~writeEvent).has writeEvent = false := by
  have h : (e &&& ~~~writeEvent) &&& writeEvent = 0#32 := by
    ext i hi
    simp only [BitVec.getElem_and, BitVec.getElem_not, BitVec.getElem_zero]
    cases e[i] <;> cases writeEvent[i] <;> rfl
  simp [EventMask.has, h]

@[simp] theorem has_writeEvent_or_readEvent (e : EventMask) :
    (e ||| readEvent).has writeEvent = e.has writeEvent := by
  have h : (e ||| readEvent) &&& writeEvent = e &&& writeEvent := by
    have hrw : readEvent &&& writeEvent = 0#32 := by decide
    ext i hi
    have hbit : (readEvent[i] && writeEvent[i]) = false := by
      have := congrArg (fun m : EventMask => m[i]) hrw
      simpa using this
    simp only [BitVec.getElem_and, BitVec.getElem_or]
    revert hbit
    cases e[i] <;> cases readEvent[i] <;> cases writeEvent[i] <;> simp
  simp only [EventMask.has, h]

@[simp] theorem has_noneEvent (m : EventMask) : noneEvent.has m = false := by
  simp [EventMask.has, noneEvent]

/-! ## The kernel's interest set -/

/-- What `epoll_ctl` stores for a descriptor. -/
structure Registration where
  ptr : Nat
  events : EventMask
deriving DecidableEq, Repr

inductive EpollOp where
  | add
  | mod
  | del
deriving DecidableEq, Repr

/-- `epoll_ctl`: `ADD` fails on a registered descriptor, `MOD` and `DEL` on an
unregistered one (`none`). -/
def epollCtl (epoll : Nat → Option Registration) (op : EpollOp) (fd : Nat) (r : Registration) :
    Option (Nat → Option Registration) :=
  match op, epoll fd with
  | .add, none => some (Function.update epoll fd (some r))
  | .mod, some _ => some (Function.update epoll fd (some r))
  | .del, some _ => some (Function.update epoll fd none)
  | _, _ => none

/-! ## EPollPoller -/

structure EPollPoller where
  channels : Nat → Option Nat
  epoll : Nat → Option Registration
  /-- `LOG_FATAL` was reached: the process has been aborted. -/
  fatal : Bool

namespace EPollPoller

def new : EPollPoller where
  channels := fun _ => none
  epoll := fun _ => none
  fatal := false

/-- `EPollPoller::update`: a failing `DEL` is logged, any other failure ends in
`LOG_FATAL`. -/
def update (p : EPollPoller) (op : EpollOp) (ch : Channel) : EPollPoller :=
  match epollCtl p.epoll op ch.fd ⟨ch.self, ch.events⟩ with
  | some epoll => { p with epoll := epoll }
  | none => if op = .del then p else { p with fatal := true }

def updateChannel (p : EPollPoller) (ch : Channel) : EPollPoller × Channel :=
  match ch.index with
  | .new =>
    ({ p with channels := Function.update p.channels ch.fd (some ch.self) }.update .add
      { ch with index := .added }, { ch with index := .added })
  | .deleted => (p.update .add { ch with index := .added }, { ch with index := .added })
  | .added =>
    if ch.isNoneEvent then
      (p.update .del { ch with index := .deleted }, { ch with index := .deleted })
    else
      (p.update .mod ch, ch)

def removeChannel (p : EPollPoller) (ch : Channel) : EPollPoller × Channel :=
  if ch.index = .added then
    ({ p with channels := Function.update p.channels ch.fd none }.update .del ch,
      { ch with index := .new })
  else
    ({ p with channels := Function.update p.channels ch.fd none }, { ch with index := .new })

def hasChannel (p : EPollPoller) (ch : Channel) : Bool :=
  p.channels ch.fd == some ch.self

/-- The channel is registered in the kernel's interest set. -/
def registered (p : EPollPoller) (ch : Channel) : Bool :=
  match p.epoll ch.fd with
  | some r => r.ptr == ch.self
  | none => false

/-- The body shared by the enable and disable operations of a channel: store
the event set and update the poller. -/
def setEvents (p : EPollPoller) (ch : Channel) (events : EventMask) : EPollPoller × Channel :=
  p.updateChannel { ch with events := events }

/-! ## What an update does to the channel -/

theorem setEvents_fd (p : EPollPoller) (ch : Channel) (e : EventMask) :
    (p.setEvents ch e).2.fd = ch.fd := by
  unfold setEvents updateChannel
  split
  · rfl
  · rfl
  · split <;> rfl

theorem setEvents_self (p : EPollPoller) (ch : Channel) (e : EventMask) :
    (p.setEvents ch e).2.self = ch.self := by
  unfold setEvents updateChannel
  split
  · rfl
  · rfl
  · split <;> rfl

theorem setEvents_events (p : EPollPoller) (ch : Channel) (e : EventMask) :
    (p.setEvents ch e).2.events = e := by
  unfold setEvents updateChannel
  split
  · rfl
  · rfl
  · split <;> rfl

/-- No update leaves a channel `New`. -/
theorem setEvents_index (p : EPollPoller) (ch : Channel) (e : EventMask) :
    (p.setEvents ch e).2.index ≠ .new := by
  unfold setEvents updateChannel
  split
  · simp
  · simp
  · rename_i h
    split
    · simp
    · simpa using h ▸ (by decide : Index.added ≠ .new)

theorem removeChannel_channel (p : EPollPoller) (ch : Channel) :
    (p.removeChannel ch).2 = { ch with index := .new } := by
  unfold removeChannel
  split <;> rfl

/-! ## Other descriptors -/

theorem update_channels (p : EPollPoller) (op : EpollOp) (ch : Channel) :
    (p.update op ch).channels = p.channels := by
  unfold update
  split
  · rfl
  · split <;> rfl

theorem epollCtl_ne {epoll epoll' : Nat → Option Registration} {op : EpollOp} {fd fd' : Nat}
    {r : Registration} (h : epollCtl epoll op fd r = some epoll') (hne : fd' ≠ fd) :
    epoll' fd' = epoll fd' := by
  unfold epollCtl at h
  split at h
  · obtain rfl := Option.some.inj h
    exact Function.update_of_ne hne _ _
  · obtain rfl := Option.some.inj h
    exact Function.update_of_ne hne _ _
  · obtain rfl := Option.some.inj h
    exact Function.update_of_ne hne _ _
  · simp at h

theorem update_epoll_ne (p : EPollPoller) (op : EpollOp) (ch : Channel) {fd : Nat}
    (hne : fd ≠ ch.fd) : (p.update op ch).epoll fd = p.epoll fd := by
  unfold update
  split
  · rename_i hctl
    exact epollCtl_ne hctl hne
  · split <;> rfl

theorem setEvents_epoll_ne (p : EPollPoller) (ch : Channel) (e : EventMask) {fd : Nat}
    (hne : fd ≠ ch.fd) : (p.setEvents ch e).1.epoll fd = p.epoll fd := by
  unfold setEvents updateChannel
  split
  · exact update_epoll_ne _ _ _ hne
  · exact update_epoll_ne _ _ _ hne
  · split
    · exact update_epoll_ne _ _ _ hne
    · exact update_epoll_ne _ _ _ hne

theorem setEvents_channels_ne (p : EPollPoller) (ch : Channel) (e : EventMask) {fd : Nat}
    (hne : fd ≠ ch.fd) : (p.setEvents ch e).1.channels fd = p.channels fd := by
  unfold setEvents updateChannel
  split
  · rw [update_channels]
    exact Function.update_of_ne hne _ _
  · rw [update_channels]
  · split
    · rw [update_channels]
    · rw [update_channels]

theorem removeChannel_epoll_ne (p : EPollPoller) (ch : Channel) {fd : Nat}
    (hne : fd ≠ ch.fd) : (p.removeChannel ch).1.epoll fd = p.epoll fd := by
  unfold removeChannel
  split
  · exact update_epoll_ne _ _ _ hne
  · rfl

theorem removeChannel_channels_ne (p : EPollPoller) (ch : Channel) {fd : Nat}
    (hne : fd ≠ ch.fd) : (p.removeChannel ch).1.channels fd = p.channels fd := by
  unfold removeChannel
  split
  · rw [update_channels]
    exact Function.update_of_ne hne _ _
  · exact Function.update_of_ne hne _ _

/-! ## The three views of one channel -/

/-- Index, map entry and kernel registration of a channel agree: registered
with its own event set exactly when `Added`, in the map unless `New`. -/
def Coherent (p : EPollPoller) (ch : Channel) : Prop :=
  p.channels ch.fd = (if ch.index = .new then none else some ch.self) ∧
  p.epoll ch.fd = (if ch.index = .added then some ⟨ch.self, ch.events⟩ else none)

theorem new_coherent (self fd : Nat) : EPollPoller.new.Coherent (Channel.new self fd) := by
  simp [Coherent, EPollPoller.new, Channel.new]

theorem setEvents_coherent {p : EPollPoller} {ch : Channel} (h : p.Coherent ch) (e : EventMask) :
    (p.setEvents ch e).1.Coherent (p.setEvents ch e).2 := by
  obtain ⟨hmap, hreg⟩ := h
  cases hidx : ch.index with
  | new =>
    simp only [hidx] at hmap hreg
    simp [setEvents, updateChannel, Coherent, update, epollCtl, hreg, hidx]
  | deleted =>
    simp only [hidx] at hmap hreg
    simp [setEvents, updateChannel, Coherent, update, epollCtl, hreg, hmap, hidx]
  | added =>
    simp only [hidx] at hmap hreg
    by_cases hnone : isNoneEvent { ch with events := e } = true
    · simp only [hidx] at hnone
      simp [setEvents, updateChannel, Coherent, update, epollCtl, hreg, hmap, hidx, hnone]
    · simp only [hidx] at hnone
      simp [setEvents, updateChannel, Coherent, update, epollCtl, hreg, hmap, hidx, hnone]

theorem removeChannel_coherent {p : EPollPoller} {ch : Channel} (h : p.Coherent ch) :
    (p.removeChannel ch).1.Coherent (p.removeChannel ch).2 := by
  obtain ⟨hmap, hreg⟩ := h
  unfold removeChannel
  split
  · rename_i hidx
    simp [Coherent, update, epollCtl, hreg, hidx]
  · rename_i hidx
    simp [Coherent, hreg, hidx]

/-- A coherent channel is registered exactly when its index is `Added`. -/
theorem registered_iff {p : EPollPoller} {ch : Channel} (h : p.Coherent ch) :
    p.registered ch = true ↔ ch.index = .added := by
  unfold registered
  rw [h.2]
  by_cases hidx : ch.index = .added
  · simp [hidx]
  · simp [hidx]

end EPollPoller

end EchoServer
