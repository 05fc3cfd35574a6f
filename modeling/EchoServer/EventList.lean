import Mathlib.Data.Fintype.Card
import EchoServer.Lib.Doubling
import EchoServer.ChannelOps
import EchoServer.OutputStream

/-!
# Waiting for events

`EPollPoller::poll` on the channels of one poller. `epoll_wait` writes the
events of ready channels to the front of the vector `revents_`, as many as fit;
`fillActiveChannels` copies them out, and a vector that was filled is doubled
for the next call. Between two polls the channels are operated on in any way.

* `Reports`, `poll_reports`: the active channels are ready ones, each once, and
  all of them unless the vector is full;
* `event_list_bounded`: how far the vector grows, and how often a ready channel
  is left out before it has grown enough.
-/

namespace EchoServer

open Runs Channel

/-- `epoll_event`: the kernel reports in the structure it has been given. -/
abbrev EpollEvent := Registration

/-- `InitEventListSize`. -/
def initEventListSize : Nat := 16

/-! ## The kernel -/

/-- What has happened at the descriptors, and the order in which `epoll_wait`
comes to look at them. -/
structure Occurrences (ι : Type u) where
  occurred : ι → EventMask
  order : List ι
  nodup : order.Nodup
  complete : ∀ i, i ∈ order

/-- The answer of `epoll_wait`. -/
inductive WaitAnswer (ι : Type u) where
  | ready (o : Occurrences ι)
  | err (e : Errno)

namespace PolledChannels

variable {ι : Type u}

/-- The events a registration lets through. -/
def asked (r : Registration) : EventMask := r.events ||| EPOLLERR ||| EPOLLHUP

/-- The event `epoll_wait` has for a channel's descriptor. -/
def eventAt (s : PolledChannels ι) (occurred : ι → EventMask) (i : ι) : Option EpollEvent :=
  match s.poller.epoll (s.channel i).fd with
  | some r => if occurred i &&& asked r = 0#32 then none else some ⟨r.ptr, occurred i &&& asked r⟩
  | none => none

def readyEvents (s : PolledChannels ι) (o : Occurrences ι) : List EpollEvent :=
  o.order.filterMap (s.eventAt o.occurred)

/-- The channel is registered, and something it cares for has happened. -/
def Ready (s : PolledChannels ι) (o : Occurrences ι) (i : ι) : Prop :=
  (s.channel i).index = .added ∧
    o.occurred i &&& asked ⟨(s.channel i).self, (s.channel i).events⟩ ≠ 0#32

/-- What a ready channel is reported with. -/
def reportOf (s : PolledChannels ι) (o : Occurrences ι) (i : ι) : EpollEvent :=
  ⟨(s.channel i).self, o.occurred i &&& asked ⟨(s.channel i).self, (s.channel i).events⟩⟩

/-- By the poller's bookkeeping, the kernel has events for the ready channels
and no other. -/
theorem eventAt_eq_some_iff {s : PolledChannels ι} (h : s.Inv) (o : Occurrences ι) (i : ι)
    (ev : EpollEvent) :
    s.eventAt o.occurred i = some ev ↔ s.Ready o i ∧ ev = s.reportOf o i := by
  unfold eventAt Ready reportOf
  rw [(h.coherent i).2]
  by_cases hindex : (s.channel i).index = .added
  · rw [if_pos hindex]
    by_cases hnone : o.occurred i &&& asked ⟨(s.channel i).self, (s.channel i).events⟩ = 0#32
    · simp [hnone]
    · simp [hindex, hnone, eq_comm]
  · simp [hindex]

end PolledChannels

/-! ## EPollPoller::poll -/

/-- The channels of a poller with its vector of events and the loop's list of
active channels, each with the `revents_` stored in it. -/
structure Polling (ι : Type u) where
  polled : PolledChannels ι
  revents : List EpollEvent
  active : List EpollEvent

namespace Polling

variable {ι : Type u}

/-- The poller as constructed. -/
def init (cs : ChannelFamily ι) : Polling ι where
  polled := PolledChannels.init cs
  revents := List.replicate initEventListSize ⟨0, 0#32⟩
  active := []

/-- `static_cast<int>(revents_.size())`. -/
def maxEvents (s : Polling ι) : Int := (BitVec.ofNat 32 s.revents.length).toInt

/-- The events a successful `epoll_wait` writes. -/
def written (s : Polling ι) (o : Occurrences ι) : List EpollEvent :=
  (s.polled.readyEvents o).take s.maxEvents.toNat

/-- `vector::resize(2 * size)`. -/
def doubled (revents : List EpollEvent) : List EpollEvent :=
  revents ++ List.replicate revents.length ⟨0, 0#32⟩

def fillActiveChannels (s : Polling ι) (numEvents : Nat) : Polling ι :=
  { s with active := s.active ++ s.revents.take numEvents }

def growIfFull (s : Polling ι) (numEvents : Nat) : Polling ι :=
  if numEvents = s.revents.length then { s with revents := doubled s.revents } else s

/-- `poll` after `epoll_wait` has written `evs`. -/
def afterWait (s : Polling ι) (evs : List EpollEvent) : Polling ι :=
  if 0 < evs.length then
    ({ s with revents := evs ++ s.revents.drop evs.length }.fillActiveChannels
      evs.length).growIfFull evs.length
  -- the time is up
  else s

def poll (s : Polling ι) : WaitAnswer ι → Polling ι
  | .ready o =>
    -- `EINVAL` unless there is room for an event
    if 0 < s.maxEvents then s.afterWait (s.written o) else s
  | .err _ => s

/-- The vector has room for something and its size is an `int`. -/
def Sized (s : Polling ι) : Prop := 0 < s.revents.length ∧ s.revents.length < 2 ^ 31

theorem maxEvents_eq {s : Polling ι} (h : s.Sized) : s.maxEvents = s.revents.length :=
  Conn.toInt_of_lt h.2

theorem growIfFull_polled (s : Polling ι) (n : Nat) : (s.growIfFull n).polled = s.polled := by
  unfold growIfFull
  split
  · rfl
  · rfl

/-- No poll operates on a channel. -/
theorem poll_polled (s : Polling ι) (w : WaitAnswer ι) : (s.poll w).polled = s.polled := by
  cases w with
  | err e => rfl
  | ready o =>
    simp only [poll]
    split
    · unfold afterWait
      split
      · rw [growIfFull_polled]
        rfl
      · rfl
    · rfl

/-! ## Steps -/

variable [DecidableEq ι]

/-- What happens to the poller: an operation on a channel, or the loop's
`activeChannels_.clear()` and `poll`. -/
inductive Label (ι : Type u) where
  | op (e : ι × ChannelOp)
  | poll (w : WaitAnswer ι)

def step (s : Polling ι) : Label ι → Polling ι
  | .op e => { s with polled := s.polled.step e }
  | .poll w => { s with active := [] }.poll w

/-- A poll that leaves a ready channel out. -/
def leavesOut (s : Polling ι) : Label ι → Bool
  | .poll (.ready o) => (s.step (.poll (.ready o))).active.length < (s.polled.readyEvents o).length
  | _ => false

/-! ## One poll -/

/-- A successful `epoll_wait` is followed by copying out what was written, and
by doubling if that was all there was room for. -/
theorem poll_ready {s : Polling ι} (h : s.Sized) (o : Occurrences ι) :
    (s.step (.poll (.ready o))).active = (s.polled.readyEvents o).take s.revents.length ∧
    (s.step (.poll (.ready o))).revents.length =
      (if s.revents.length ≤ (s.polled.readyEvents o).length then 2 * s.revents.length
        else s.revents.length) := by
  have hmax : ({ s with active := [] } : Polling ι).maxEvents = s.revents.length := maxEvents_eq h
  have hwritten : ({ s with active := [] } : Polling ι).written o =
      (s.polled.readyEvents o).take s.revents.length := by
    simp only [written, hmax, Int.toNat_natCast]
  have hpos : 0 < ({ s with active := [] } : Polling ι).maxEvents := by
    rw [hmax]
    exact Int.natCast_pos.mpr h.1
  simp only [step, poll, if_pos hpos, hwritten]
  generalize s.polled.readyEvents o = ready at *
  have hroom := h.1
  unfold afterWait
  by_cases hnone : ready = []
  · subst hnone
    simp only [List.take_nil, List.length_nil, Nat.lt_irrefl, if_false]
    exact ⟨trivial, (if_neg (by omega)).symm⟩
  · have hsome : 0 < ready.length := List.length_pos_of_ne_nil hnone
    have htaken : (ready.take s.revents.length).length = min s.revents.length ready.length :=
      List.length_take
    have hlength : (ready.take s.revents.length ++
        s.revents.drop (ready.take s.revents.length).length).length = s.revents.length := by
      rw [List.length_append, List.length_drop, htaken]
      omega
    rw [if_pos (by rw [htaken]; omega)]
    unfold growIfFull fillActiveChannels
    simp only [hlength, List.nil_append]
    by_cases hfull : s.revents.length ≤ ready.length
    · rw [if_pos (by rw [htaken]; omega), if_pos hfull]
      constructor
      · exact List.take_left
      · simp only [doubled, List.length_append, List.length_replicate, hlength]
        omega
    · rw [if_neg (by rw [htaken]; omega), if_neg hfull]
      exact ⟨List.take_left, hlength⟩

/-- The active channels after a poll that succeeds: ready ones, each once, with
what they have asked for, and all of them unless the vector is full. -/
structure Reports (s : Polling ι) (o : Occurrences ι) (is : List ι) : Prop where
  active : (s.step (.poll (.ready o))).active = is.map (s.polled.reportOf o)
  once : is.Nodup
  ready : ∀ i ∈ is, s.polled.Ready o i
  all : is.length < s.revents.length → ∀ i, s.polled.Ready o i → i ∈ is

omit [DecidableEq ι] in
/-- The list the kernel goes through, as channels. -/
theorem readyEvents_eq {s : PolledChannels ι} (h : s.Inv) (o : Occurrences ι) :
    ∃ is : List ι, s.readyEvents o = is.map (s.reportOf o) ∧ is.Sublist o.order ∧
      ∀ i, i ∈ is ↔ s.Ready o i := by
  have hfilter : ∀ order : List ι, ∃ is : List ι,
      order.filterMap (s.eventAt o.occurred) = is.map (s.reportOf o) ∧ is.Sublist order ∧
        ∀ i, i ∈ is ↔ i ∈ order ∧ s.Ready o i := by
    intro order
    induction order with
    | nil => exact ⟨[], rfl, List.Sublist.refl _, by simp⟩
    | cons i order ih =>
      obtain ⟨is, heq, hsub, hmem⟩ := ih
      by_cases hready : s.Ready o i
      · have hevent : s.eventAt o.occurred i = some (s.reportOf o i) :=
          (PolledChannels.eventAt_eq_some_iff h o i _).mpr ⟨hready, rfl⟩
        refine ⟨i :: is, ?_, hsub.cons_cons i, ?_⟩
        · rw [List.filterMap_cons_some hevent, heq, List.map_cons]
        · intro j
          rw [List.mem_cons, List.mem_cons, hmem]
          constructor
          · rintro (rfl | hj)
            · exact ⟨Or.inl rfl, hready⟩
            · exact ⟨Or.inr hj.1, hj.2⟩
          · rintro ⟨rfl | hj, hj'⟩
            · exact Or.inl rfl
            · exact Or.inr ⟨hj, hj'⟩
      · have hevent : s.eventAt o.occurred i = none := by
          rw [Option.eq_none_iff_forall_ne_some]
          intro ev hev
          exact hready ((PolledChannels.eventAt_eq_some_iff h o i ev).mp hev).1
        refine ⟨is, ?_, hsub.cons i, ?_⟩
        · rw [List.filterMap_cons_none hevent, heq]
        · intro j
          rw [hmem, List.mem_cons]
          constructor
          · rintro ⟨hj, hj'⟩
            exact ⟨Or.inr hj, hj'⟩
          · rintro ⟨rfl | hj, hj'⟩
            · exact absurd hj' hready
            · exact ⟨hj, hj'⟩
  obtain ⟨is, heq, hsub, hmem⟩ := hfilter o.order
  refine ⟨is, heq, hsub, ?_⟩
  intro i
  rw [hmem]
  exact ⟨And.right, fun hready => ⟨o.complete i, hready⟩⟩

theorem poll_reports {s : Polling ι} (h : s.polled.Inv) (hsized : s.Sized) (o : Occurrences ι) :
    ∃ is, s.Reports o is := by
  obtain ⟨is, heq, hsub, hmem⟩ := readyEvents_eq h o
  refine ⟨is.take s.revents.length, ?_, ?_, ?_, ?_⟩
  · rw [(poll_ready hsized o).1, heq, List.map_take]
  · exact (hsub.nodup o.nodup).sublist (List.take_sublist _ _)
  · intro i hi
    exact (hmem i).mp (List.mem_of_mem_take hi)
  · intro hshort i hready
    have hall : is.take s.revents.length = is := by
      rw [List.length_take] at hshort
      exact List.take_of_length_le (by omega)
    rw [hall]
    exact (hmem i).mpr hready

/-! ## Whole runs -/

/-- Less than `2 ^ 30` channels keep the size of the vector an `int`. -/
structure Inv [Fintype ι] (s : Polling ι) : Prop where
  polled : s.polled.Inv
  size : ∃ k, s.revents.length = initEventListSize * 2 ^ k
  bound : s.revents.length ≤ max initEventListSize (2 * Fintype.card ι)

variable [Fintype ι]

omit [DecidableEq ι] in
theorem init_inv (cs : ChannelFamily ι) : (init cs).Inv where
  polled := PolledChannels.init_inv cs
  size := ⟨0, by simp [init]⟩
  bound := by simp [init]

omit [DecidableEq ι] in
theorem Inv.sized {s : Polling ι} (h : s.Inv) (hcard : Fintype.card ι < 2 ^ 30) : s.Sized := by
  obtain ⟨k, hk⟩ := h.size
  have hbound := h.bound
  have hpow := Nat.two_pow_pos k
  unfold Sized
  unfold initEventListSize at *
  omega

omit [DecidableEq ι] in
/-- No more channels are ready than there are. -/
theorem length_readyEvents_le {s : PolledChannels ι} (h : s.Inv) (o : Occurrences ι) :
    (s.readyEvents o).length ≤ Fintype.card ι := by
  obtain ⟨is, heq, hsub, _⟩ := readyEvents_eq h o
  rw [heq, List.length_map]
  exact (hsub.nodup o.nodup).length_le_card

theorem Inv.step {s : Polling ι} (h : s.Inv) (hcard : Fintype.card ι < 2 ^ 30) (e : Label ι) :
    (s.step e).Inv := by
  have hsized := h.sized hcard
  cases e with
  | op e => exact ⟨h.polled.step e, h.size, h.bound⟩
  | poll w =>
    cases w with
    | err e => exact ⟨h.polled, h.size, h.bound⟩
    | ready o =>
      have hpolled : (s.step (.poll (.ready o))).polled = s.polled := poll_polled _ _
      have hle := length_readyEvents_le h.polled o
      have hbound := h.bound
      obtain ⟨k, hk⟩ := h.size
      obtain ⟨_, hlength⟩ := poll_ready hsized o
      refine ⟨hpolled ▸ h.polled, ?_, ?_⟩
      · rw [hlength]
        split
        · refine ⟨k + 1, ?_⟩
          rw [hk, Nat.pow_succ]
          ac_rfl
        · exact ⟨k, hk⟩
      · -- only a vector that the channels can fill is doubled
        rw [hlength]
        split
        · omega
        · exact hbound

theorem Inv.doubles {s : Polling ι} (h : s.Inv) (hcard : Fintype.card ι < 2 ^ 30) (e : Label ι) :
    Doubles (fun s : Polling ι => s.revents.length) leavesOut Polling.step (Fintype.card ι) s
      e := by
  have hsized := h.sized hcard
  cases e with
  | op e => exact ⟨Nat.le_refl _, by simp [leavesOut], by simp [leavesOut]⟩
  | poll w =>
    cases w with
    | err e => exact ⟨Nat.le_refl _, by simp [leavesOut], by simp [leavesOut]⟩
    | ready o =>
      obtain ⟨hactive, hlength⟩ := poll_ready hsized o
      have hle := length_readyEvents_le h.polled o
      have hshort : s.leavesOut (.poll (.ready o)) = true →
          s.revents.length < (s.polled.readyEvents o).length := by
        intro hmark
        simp only [leavesOut, hactive, decide_eq_true_eq, List.length_take] at hmark
        omega
      refine ⟨?_, ?_, ?_⟩
      · simp only [hlength]
        split
        · omega
        · exact Nat.le_refl _
      · intro hmark
        exact (hshort hmark).trans_le hle
      · intro hmark
        simp only [hlength]
        rw [if_pos (Nat.le_of_lt (hshort hmark))]

/-- Over any run of polls and operations on fewer than `2 ^ 30` channels, the
vector keeps a size of `16 * 2 ^ k` and never exceeds twice the number of
channels. So a ready channel is left out of a poll at most about `log₂ (n / 16)`
times, and otherwise the active channels are the ready ones. -/
theorem event_list_bounded (cs : ChannelFamily ι) (hcard : Fintype.card ι < 2 ^ 30)
    (es : List (Label ι)) :
    Always step (init cs) (fun s => (∃ k, s.revents.length = initEventListSize * 2 ^ k) ∧
      s.revents.length ≤ max initEventListSize (2 * Fintype.card ι)) es ∧
    countSteps step leavesOut (init cs) es ≤
      Nat.clog 2 ((Fintype.card ι + initEventListSize - 1) / initEventListSize) := by
  have hinv : ∀ (s : Polling ι) (e : Label ι), s.Inv → (s.step e).Inv :=
    fun s e h => h.step hcard e
  constructor
  · intro pre _
    have h := run_invariant Inv hinv (init_inv cs) pre
    exact ⟨h.size, h.bound⟩
  · have hfirst : (init cs).revents.length = initEventListSize := List.length_replicate ..
    have hcount := countSteps_le_clog_div Inv hinv (fun s e h => h.doubles hcard e) (init_inv cs)
      (by simp [hfirst, initEventListSize]) es
    rwa [hfirst] at hcount

/-- Every poll of such a run that succeeds makes channels active that are
registered and have something to handle, none of them twice, and leaves none
out that there is room for. -/
theorem active_channels_ready (cs : ChannelFamily ι) (hcard : Fintype.card ι < 2 ^ 30)
    (es : List (Label ι)) :
    EachStep step (init cs) (fun s e => ∀ o, e = .poll (.ready o) → ∃ is, s.Reports o is) es := by
  intro pre e _ o _
  have h := run_invariant Inv (fun s e h => Inv.step h hcard e) (init_inv cs) pre
  exact poll_reports h.polled (h.sized hcard) o

/-- Two channels, the second of which nobody listens on. -/
def twoChannels : ChannelFamily Bool where
  self i := i.toNat + 100
  fd i := i.toNat + 3
  fd_injective := by decide

def bothReadable : Occurrences Bool where
  occurred _ := EPOLLIN
  order := [true, false]
  nodup := by decide
  complete := by decide

theorem event_list_bounded_two :
    Always step (init twoChannels) (fun s =>
      (∃ k, s.revents.length = initEventListSize * 2 ^ k) ∧
        s.revents.length ≤ max initEventListSize (2 * Fintype.card Bool))
      [.op (false, .enableReading), .poll (.ready bothReadable)] ∧
    countSteps step leavesOut (init twoChannels)
        [.op (false, .enableReading), .poll (.ready bothReadable)] ≤
      Nat.clog 2 ((Fintype.card Bool + initEventListSize - 1) / initEventListSize) :=
  event_list_bounded twoChannels (by simp) [.op (false, .enableReading), .poll (.ready bothReadable)]

theorem active_channels_ready_two :
    EachStep step (init twoChannels)
      (fun s e => ∀ o, e = .poll (.ready o) → ∃ is, s.Reports o is)
      [.op (false, .enableReading), .poll (.ready bothReadable)] ∧
    (run step (init twoChannels) [.op (false, .enableReading), .poll (.ready bothReadable)]).active =
      [⟨100, EPOLLIN⟩] :=
  ⟨active_channels_ready twoChannels (by simp)
    [.op (false, .enableReading), .poll (.ready bothReadable)], by decide⟩

end Polling

end EchoServer
