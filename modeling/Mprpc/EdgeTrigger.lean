import Mprpc.Library.Transition
import Mprpc.ServerReads

namespace Mprpc.EdgeTrigger

open Transport TcpConnection TcpServer ServerReads Library.Transition

/-- A client connection and the kernel's side of it: the receive queue, whether
the peer has shut its end, and whether an edge is waiting for the event loop. -/
structure Endpoint where
  connection : TcpConnection
  queue : Bytes
  ended : Bool
  edge : Bool

/-- `late` are the bytes that arrive between the edge and the read. -/
inductive Event
  | arrive (data : Bytes)
  | shut
  | deliver (late : Bytes)

def start (sockfd : Int) (peerAddr : Text) : Endpoint :=
  ⟨accepted sockfd peerAddr, [], false, false⟩

def Endpoint.isOpen (s : Endpoint) : Bool := s.connection.state ≠ .disconnected

/-- What `readv` returns for a receive queue. -/
def readv (s : Endpoint) (queue : Bytes) : Readv :=
  if queue.isEmpty then if s.ended then .bytes [] else .error .eagain
  else .bytes (queue.take s.connection.inputBuffer.offered)

def step (s : Endpoint) : Event → Option Endpoint
  | .arrive data =>
    if data.isEmpty || s.ended then none
    else some { s with queue := s.queue ++ data, edge := true }
  | .shut => if s.ended then none else some { s with ended := true, edge := true }
  | .deliver late =>
    if s.edge && s.isOpen && (late.isEmpty || !s.ended) then
      let queue := s.queue ++ late
      match (handleClientRead (readv s queue)).run s.connection with
      | .ok _ c => some { s with
          connection := c
          queue := queue.drop s.connection.inputBuffer.offered
          edge := !late.isEmpty }
      | .error _ _ => none
    else none

/-- No bytes are left in the kernel without an edge to announce them. -/
def Drained (s : Endpoint) : Prop := s.edge = false → s.isOpen = true → s.queue = []

/-- One read can empty the queue, or an edge is pending again by then. -/
def Allows (s : Endpoint) : Event → Prop
  | .deliver late => s.edge = true → s.isOpen = true → late = [] →
      s.queue.length ≤ s.connection.inputBuffer.offered
  | _ => True

structure Inv (s : Endpoint) : Prop where
  live : Live s.connection.inputBuffer
  callback : s.connection.messageCallback = true

theorem start_inv (sockfd : Int) (peerAddr : Text) : Inv (start sockfd peerAddr) :=
  ⟨accepted_live sockfd peerAddr, rfl⟩

theorem readv_fits (s : Endpoint) (queue : Bytes) :
    Fits s.connection.inputBuffer (readv s queue) := by
  unfold readv
  split
  · split
    · exact Nat.zero_le _
    · exact Nat.zero_le _
  · exact List.length_take_le _ _

theorem step_inv (s : Endpoint) (event : Event) (t : Endpoint) (inv : Inv s)
    (h : step s event = some t) : Inv t := by
  cases event with
  | arrive data =>
    dsimp only [step] at h
    split at h
    · cases h
    · cases h
      exact ⟨inv.live, inv.callback⟩
  | shut =>
    dsimp only [step] at h
    split at h
    · cases h
    · cases h
      exact ⟨inv.live, inv.callback⟩
  | deliver late =>
    obtain ⟨c, hrun, live, hcb⟩ :=
      handleClientRead_live inv.live inv.callback (readv_fits s (s.queue ++ late))
    dsimp only [step] at h
    rw [hrun] at h
    split at h
    · cases h
      exact ⟨live, hcb⟩
    · cases h

theorem deliver_run {s : Endpoint} (inv : Inv s) (hedge : s.edge = true) (hopen : s.isOpen = true)
    (hqueue : s.queue ≠ []) :
    ∃ t, step s (.deliver []) = some t ∧ t.edge = false ∧ t.isOpen = true ∧
      t.queue = s.queue.drop s.connection.inputBuffer.offered := by
  have hread : readv s s.queue = .bytes (s.queue.take s.connection.inputBuffer.offered) := by
    rw [readv, if_neg]
    simpa using hqueue
  have hdata : s.queue.take s.connection.inputBuffer.offered ≠ [] := by
    have hoffer := offered_ge (b := s.connection.inputBuffer)
    have hextra : Buffer.extraBufSize = 65536 := rfl
    have hpos := List.length_pos_of_ne_nil hqueue
    apply List.ne_nil_of_length_pos
    rw [List.length_take]
    omega
  obtain ⟨c, hrun, hstate⟩ : ∃ c,
      (handleClientRead (.bytes (s.queue.take s.connection.inputBuffer.offered))).run s.connection =
        .ok () c ∧ c.state = s.connection.state := by
    obtain ⟨b, hrun, _, _⟩ :=
      handleClientRead_bytes inv.live inv.callback hdata (List.length_take_le _ _)
    exact ⟨_, hrun, rfl⟩
  refine ⟨{ s with
    connection := c
    queue := s.queue.drop s.connection.inputBuffer.offered
    edge := false }, ?_, rfl, ?_, rfl⟩
  · simp [step, hedge, hopen, hread, hrun]
  · rw [Endpoint.isOpen] at hopen ⊢
    rwa [hstate]

theorem drained_of_edge {s : Endpoint} (h : s.edge = true) : Drained s := by
  intro hedge
  rw [h] at hedge
  cases hedge

theorem deliver_some {s t : Endpoint} {late : Bytes} (h : step s (.deliver late) = some t) :
    s.edge = true ∧ s.isOpen = true ∧ t.edge = !late.isEmpty ∧
      t.queue = (s.queue ++ late).drop s.connection.inputBuffer.offered := by
  dsimp only [step] at h
  split at h
  · rename_i henabled
    simp only [Bool.and_eq_true] at henabled
    split at h
    · cases h
      exact ⟨henabled.1.1, henabled.1.2, rfl, rfl⟩
    · cases h
  · cases h

/-- A delivery keeps the queue drained exactly when it was allowed. -/
theorem deliver_drained_iff {s : Endpoint} (inv : Inv s) (late : Bytes) :
    (∀ t, step s (.deliver late) = some t → Drained t) ↔ Allows s (.deliver late) := by
  by_cases hlate : late = []
  · subst hlate
    constructor
    · intro h hedge hopen _
      by_cases hqueue : s.queue = []
      · rw [hqueue]
        exact Nat.zero_le _
      · obtain ⟨t, hstep, hedge', hopen', hleft⟩ := deliver_run inv hedge hopen hqueue
        have hnil := h t hstep hedge' hopen'
        rw [hleft] at hnil
        exact List.drop_eq_nil_iff.mp hnil
    · intro hallows t hstep _ _
      obtain ⟨hedge, hopen, _, hleft⟩ := deliver_some hstep
      rw [hleft, List.append_nil]
      exact List.drop_eq_nil_iff.mpr (hallows hedge hopen rfl)
  · constructor
    · intro _ _ _ hnil
      exact absurd hnil hlate
    · intro _ t hstep
      obtain ⟨_, _, hedge, _⟩ := deliver_some hstep
      apply drained_of_edge
      rw [hedge]
      simpa using hlate

theorem step_drained_iff (s : Endpoint) (event : Event) (inv : Inv s) (_ : Drained s) :
    (∀ t, step s event = some t → Drained t) ↔ Allows s event := by
  cases event with
  | arrive data =>
    refine ⟨fun _ => trivial, ?_⟩
    intro _ t h
    dsimp only [step] at h
    split at h
    · cases h
    · cases h
      exact drained_of_edge rfl
  | shut =>
    refine ⟨fun _ => trivial, ?_⟩
    intro _ t h
    dsimp only [step] at h
    split at h
    · cases h
    · cases h
      exact drained_of_edge rfl
  | deliver late => exact deliver_drained_iff inv late

/-- No bytes are stranded along a run exactly when no delivery finds more in the
queue than one read takes. -/
theorem drained_iff (sockfd : Int) (peerAddr : Text) (events : List Event) :
    (∀ before s, before <+: events → run step (start sockfd peerAddr) before = some s →
      Drained s) ↔ Guarded step Allows (start sockfd peerAddr) events :=
  forall_prefix_iff_guarded step_inv step_drained_iff (start_inv sockfd peerAddr) (fun _ _ => rfl)

theorem new_offered :
    (Buffer.new Buffer.kInitialSize).offered = Buffer.kInitialSize + Buffer.extraBufSize := by
  have hwritable : (Buffer.new Buffer.kInitialSize).writableBytes = Buffer.kInitialSize := by
    rw [Buffer.writableBytes_eq (Buffer.new_wellFormed (by decide)), Buffer.new,
      List.length_replicate]
    decide
  rw [Buffer.offered, hwritable, if_pos (by decide)]

/-- One byte more than a new connection takes in one read. -/
def burst : Bytes := List.replicate (Buffer.kInitialSize + Buffer.extraBufSize + 1) 0

theorem burst_stranded :
    ∃ s, run step (start 5 []) [.arrive burst, .deliver []] = some s ∧
      s.edge = false ∧ s.isOpen = true ∧ s.queue.length = 1 := by
  have hlen : burst.length = Buffer.kInitialSize + Buffer.extraBufSize + 1 := List.length_replicate
  have hne : burst ≠ [] := by
    apply List.ne_nil_of_length_pos
    omega
  have hoffered : (start 5 []).connection.inputBuffer.offered =
      Buffer.kInitialSize + Buffer.extraBufSize := new_offered
  have harrive : step (start 5 []) (.arrive burst) =
      some { start 5 [] with queue := burst, edge := true } := by
    simp [step, hne, start]
  obtain ⟨s, hstep, hedge, hopen, hleft⟩ :=
    deliver_run (s := { start 5 [] with queue := burst, edge := true })
      ⟨accepted_live 5 [], rfl⟩ rfl rfl hne
  refine ⟨s, ?_, hedge, hopen, ?_⟩
  · rw [run, harrive, Option.bind_some, run, hstep]
    rfl
  · rw [hleft, List.length_drop, hlen]
    dsimp only
    rw [hoffered]
    omega

end Mprpc.EdgeTrigger
