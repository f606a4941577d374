import Mprpc.ServerReads

namespace Mprpc.ReadOutcomes

open Transport TcpConnection TcpServer ServerFraming ServerReads
open Library.Incremental

/-- What is left of a connection that has been closed: nothing more was handed over. -/
structure Closed (c c' : TcpConnection) : Prop where
  state : c'.state = .disconnected
  handed : c'.handed = c.handed
  peerAddr : c'.peerAddr = c.peerAddr
  effects : c.effects <+: c'.effects

theorem close_closed (c : TcpConnection) {c' : TcpConnection} (h : close.run c = .ok () c') :
    Closed c c' := by
  by_cases hs : c.state = .disconnected
  · simp only [close, EStateM.run_bind, EStateM.run_get, hs, ne_eq, not_true_eq_false, if_false,
      EStateM.run_pure] at h
    cases h
    exact ⟨hs, rfl, rfl, List.prefix_rfl⟩
  · by_cases hf : c.sockfd = -1
    · simp [close, hs, hf] at h
      cases h
      exact ⟨rfl, rfl, rfl, List.prefix_rfl⟩
    · simp [close, hs, hf, emit] at h
      cases h
      refine ⟨rfl, ?_, rfl, List.prefix_append _ _⟩
      simp [handed, messagesOf, Effect.handedFrame]

theorem handleClientClose_closed {c c' : TcpConnection}
    (h : handleClientClose.run c = .ok () c') : Closed c c' ∧ .removed ∈ c'.effects := by
  have hclose : close.run { c with
      effects := c.effects ++ [.unregistered c.sockfd] ++ [.removed] } = .ok () c' := by
    simpa only [handleClientClose, EStateM.run_bind, EStateM.run_get, emit, EStateM.run_modify]
      using h
  obtain ⟨hstate, hhanded, hpeer, heffects⟩ := close_closed _ hclose
  refine ⟨⟨hstate, ?_, hpeer, ?_⟩, heffects.subset (by simp)⟩
  · rw [hhanded]
    simp [handed, messagesOf, Effect.handedFrame]
  · rw [List.append_assoc] at heffects
    exact (List.prefix_append _ _).trans heffects

/-- The ways a read can go: nothing is there, the connection is closed, or bytes come in. -/
inductive ServerRead (c : TcpConnection) : Readv → TcpConnection → Prop
  | waits {errno} : ServerRead c (.error errno) c
  | ends {result c'} (live : Live c'.inputBuffer) (callback : c'.messageCallback = true)
    (closed : Closed c c') (removed : .removed ∈ c'.effects) (size : result.size = 0) :
    ServerRead c result c'
  | delivers {data b} (live : Live b)
    (readable : b.readable = (frames.drain (c.inputBuffer.readable ++ data)).2.getD []) :
    ServerRead c (.bytes data) { c with
      inputBuffer := b
      effects := c.effects ++ (frames.drain (c.inputBuffer.readable ++ data)).1.map .message }

theorem handleClientRead_outcome {c : TcpConnection} (live : Live c.inputBuffer)
    (hcb : c.messageCallback = true) {result : Readv} (hfit : Fits c.inputBuffer result) :
    ∃ c', (handleClientRead result).run c = .ok () c' ∧ ServerRead c result c' := by
  have hclose : ∀ b : Buffer, Live b → result.size = 0 →
      ∃ c', handleClientClose.run { c with inputBuffer := b } = .ok () c' ∧
        ServerRead c result c' := by
    intro b live' hsize
    obtain ⟨c', hrun, hbuf, hcb'⟩ := handleClientClose_run { c with inputBuffer := b }
    obtain ⟨⟨hstate, hhanded, hpeer, heffects⟩, hremoved⟩ := handleClientClose_closed hrun
    exact ⟨c', hrun, .ends (by rwa [hbuf]) (hcb'.trans hcb) ⟨hstate, hhanded, hpeer, heffects⟩
      hremoved hsize⟩
  cases result with
  | error errno =>
    cases h : errno.wouldBlock with
    | true => exact ⟨c, handleClientRead_waits live h, .waits⟩
    | false =>
      rw [handleClientRead_fails live h]
      exact hclose c.inputBuffer live rfl
  | bytes data =>
    by_cases hne : data = []
    · subst hne
      obtain ⟨b, hrun, live', _⟩ := handleClientRead_ends live
      rw [hrun]
      exact hclose b live' rfl
    · obtain ⟨b, hrun, live', hread⟩ := handleClientRead_bytes live hcb hne hfit
      exact ⟨_, hrun, .delivers live' hread⟩

theorem ServerRead.live {c c' : TcpConnection} {result : Readv} (hread : ServerRead c result c')
    (live : Live c.inputBuffer) (hcb : c.messageCallback = true) :
    Live c'.inputBuffer ∧ c'.messageCallback = true := by
  cases hread with
  | waits => exact ⟨live, hcb⟩
  | ends live' callback => exact ⟨live', callback⟩
  | delivers live' => exact ⟨live', hcb⟩

theorem ServerRead.peerAddr {c c' : TcpConnection} {result : Readv}
    (hread : ServerRead c result c') : c'.peerAddr = c.peerAddr := by
  cases hread with
  | waits => rfl
  | ends _ _ closed => exact closed.peerAddr
  | delivers => rfl

end Mprpc.ReadOutcomes
