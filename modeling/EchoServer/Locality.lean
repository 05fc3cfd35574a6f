import EchoServer.Lifecycle

/-!
# What an operation reaches beyond the connection

A connection shares its poller with the others of its loop. `Localized c d`
says that `d` differs from `c` in the poller at most under the connection's own
descriptor, with the channel's three views still in agreement. The second part
collects what the operations queue and where they leave state and index.
-/

namespace EchoServer

open Trace

/-- Handlers and user calls in the loop queue no functor but these. -/
def Functor.OwnThread (f : Functor) : Prop := f.IsCallback ∨ f = .shutdownInLoop

namespace Conn

/-! ## Other descriptors -/

structure Localized (c d : Conn) : Prop where
  fd : d.tcp.channel.fd = c.tcp.channel.fd
  self : d.tcp.channel.self = c.tcp.channel.self
  coherent : c.Coherent → d.Coherent
  channels : ∀ fd, fd ≠ c.tcp.channel.fd → d.poller.channels fd = c.poller.channels fd
  epoll : ∀ fd, fd ≠ c.tcp.channel.fd → d.poller.epoll fd = c.poller.epoll fd

theorem Localized.refl (c : Conn) : Localized c c :=
  ⟨rfl, rfl, id, fun _ _ => rfl, fun _ _ => rfl⟩

theorem Localized.trans {c d e : Conn} (h : Localized c d) (h' : Localized d e) :
    Localized c e where
  fd := h'.fd.trans h.fd
  self := h'.self.trans h.self
  coherent hc := h'.coherent (h.coherent hc)
  channels fd hfd := (h'.channels fd (by rwa [h.fd])).trans (h.channels fd hfd)
  epoll fd hfd := (h'.epoll fd (by rwa [h.fd])).trans (h.epoll fd hfd)

/-- Channel and poller are as before. -/
theorem localized_of_eq {c d : Conn} (hchannel : d.tcp.channel = c.tcp.channel)
    (hpoller : d.poller = c.poller) : Localized c d where
  fd := by rw [hchannel]
  self := by rw [hchannel]
  coherent hc := by
    unfold Coherent
    rw [hchannel, hpoller]
    exact hc
  channels fd _ := by rw [hpoller]
  epoll fd _ := by rw [hpoller]

theorem setEvents_localized (c : Conn) (events : EventMask) : Localized c (c.setEvents events) where
  fd := EPollPoller.setEvents_fd _ _ _
  self := EPollPoller.setEvents_self _ _ _
  coherent hc := EPollPoller.setEvents_coherent hc events
  channels _ hfd := EPollPoller.setEvents_channels_ne _ _ _ hfd
  epoll _ hfd := EPollPoller.setEvents_epoll_ne _ _ _ hfd

theorem removeChannel_localized (c : Conn) : Localized c c.removeChannel where
  fd := by simp [removeChannel, EPollPoller.removeChannel_channel]
  self := by simp [removeChannel, EPollPoller.removeChannel_channel]
  coherent hc := EPollPoller.removeChannel_coherent hc
  channels _ hfd := EPollPoller.removeChannel_channels_ne _ _ hfd
  epoll _ hfd := EPollPoller.removeChannel_epoll_ne _ _ hfd

theorem notifyDown_localized (c : Conn) :
    Localized c (((c.setState .kDisconnected).disableAll).emit .down) := by
  have hstate : Localized c (c.setState .kDisconnected) := localized_of_eq rfl rfl
  exact (hstate.trans (setEvents_localized _ _)).trans (localized_of_eq rfl rfl)

theorem Moves.localized {c d : Conn} (h : Moves c d) : Localized c d := by
  induction h with
  | refl => exact Localized.refl c
  | emit _ _ ih => exact ih.trans (localized_of_eq rfl rfl)
  | setEvents events _ ih => exact ih.trans (setEvents_localized _ events)
  | setInputBuffer _ _ ih => exact ih.trans (localized_of_eq rfl rfl)
  | setOutputBuffer _ _ ih => exact ih.trans (localized_of_eq rfl rfl)
  | disconnecting _ ih => exact ih.trans (localized_of_eq rfl rfl)
  | queueShutdown _ _ ih => exact ih.trans (localized_of_eq rfl rfl)
  | notifyDown _ ih => exact ih.trans (notifyDown_localized _)

theorem connectEstablished_localized (c : Conn) (us : List UserCall) :
    Localized c (c.connectEstablished us) := by
  have hstate : Localized c (c.setState .kConnected) := localized_of_eq rfl rfl
  have hup : Localized c (((c.setState .kConnected).enableReading).emit
      (.connectionCallback true)) :=
    (hstate.trans (setEvents_localized _ _)).trans (localized_of_eq rfl rfl)
  exact hup.trans (userCalls_moves _ us).localized

theorem connectDestroyed_localized (c : Conn) (us : List UserCall) :
    Localized c (c.connectDestroyed us) := by
  obtain ⟨d, hmoves, heq⟩ := connectDestroyedAfter_eq c (c.tcp.state == .kConnected) us
  rw [connectDestroyed, heq]
  exact hmoves.localized.trans (removeChannel_localized d)

/-! ## What is queued -/

theorem Moves.queued {c d : Conn} (h : Moves c d) {f : Functor}
    (hf : .queueInLoop f ∈ d.trace) : .queueInLoop f ∈ c.trace ∨ f.OwnThread := by
  induction h with
  | refl => exact Or.inl hf
  | @emit d e _ he ih =>
    rcases List.mem_append.mp hf with hf | hf
    · exact ih hf
    · rw [← List.mem_singleton.mp hf] at he
      exact Or.inr (Or.inl he)
  | setEvents events _ ih => exact ih hf
  | setInputBuffer _ _ ih => exact ih hf
  | setOutputBuffer _ _ ih => exact ih hf
  | disconnecting _ ih => exact ih (by simpa using hf)
  | queueShutdown _ _ ih =>
    rcases List.mem_append.mp hf with hf | hf
    · exact ih hf
    · exact Or.inr (Or.inr (by simpa using hf))
  | notifyDown _ ih => exact ih (by simpa [disableAll] using hf)

theorem connectEstablished_queued {c : Conn} {us : List UserCall} {f : Functor}
    (hf : .queueInLoop f ∈ (c.connectEstablished us).trace) :
    .queueInLoop f ∈ c.trace ∨ f.OwnThread := by
  rcases (userCalls_moves _ us).queued hf with hf | hf
  · exact Or.inl (by simpa [enableReading] using hf)
  · exact Or.inr hf

theorem connectDestroyed_queued {c : Conn} {us : List UserCall} {f : Functor}
    (hf : .queueInLoop f ∈ (c.connectDestroyed us).trace) :
    .queueInLoop f ∈ c.trace ∨ f.OwnThread := by
  obtain ⟨d, hmoves, heq⟩ := connectDestroyedAfter_eq c (c.tcp.state == .kConnected) us
  rw [connectDestroyed, heq] at hf
  exact hmoves.queued (by simpa [removeChannel] using hf)

/-! ## State and index -/

theorem connectEstablished_not_connecting (c : Conn) (us : List UserCall) :
    (c.connectEstablished us).tcp.state ≠ .kConnecting :=
  (userCalls_moves _ us).state (Or.inl rfl) (by simp [enableReading])

theorem connectEstablished_index (c : Conn) (us : List UserCall) :
    (c.connectEstablished us).tcp.channel.index ≠ .new :=
  (userCalls_moves _ us).index (EPollPoller.setEvents_index _ _ _)

theorem connectDestroyed_index (c : Conn) (us : List UserCall) :
    (c.connectDestroyed us).tcp.channel.index = .new := by
  obtain ⟨d, _, heq⟩ := connectDestroyedAfter_eq c (c.tcp.state == .kConnected) us
  simp [connectDestroyed, heq, removeChannel, EPollPoller.removeChannel_channel]

/-- An established connection that is destroyed ends up neither connected nor
connecting. -/
theorem connectDestroyed_state {c : Conn} (hc : c.tcp.state ≠ .kConnecting)
    (us : List UserCall) :
    (c.connectDestroyed us).tcp.state ≠ .kConnected ∧
      (c.connectDestroyed us).tcp.state ≠ .kConnecting := by
  unfold connectDestroyed connectDestroyedAfter
  split
  · have hdown := (notifyDown_onlyConsumes c us).state
    have hstate : (((c.setState .kDisconnected).disableAll).emit
        (.connectionCallback false)).tcp.state = .kDisconnected := by
      simp [disableAll]
    simp [removeChannel, hdown.trans hstate]
  · rename_i hnot
    exact ⟨by simpa [removeChannel] using hnot, by simpa [removeChannel] using hc⟩

end Conn

end EchoServer
