import Mathlib.Logic.Relation
import Mprpc.ServerFraming

namespace Mprpc.ServerReads

open Transport TcpConnection TcpServer ServerFraming Library.Incremental

/-- The kernel returns no more bytes than the call asked for. -/
def Fits (b : Buffer) (result : Readv) : Prop := result.size ≤ b.offered

/-- Each result fits the buffer in the state in which it is read. -/
def Admissible : TcpConnection → List Readv → Prop
  | _, [] => True
  | c, result :: results => Fits c.inputBuffer result ∧
      ∀ c', (handleClientRead result).run c = .ok () c' → Admissible c' results

theorem Admissible.append_left {results later : List Readv} {c : TcpConnection}
    (h : Admissible c (results ++ later)) : Admissible c results := by
  induction results generalizing c with
  | nil => trivial
  | cons result results ih => exact ⟨h.1, fun c' hrun => ih (h.2 c' hrun)⟩

/-- The largest size the input buffer can reach: a frame that lacks its last
byte, and what one more read can add in front of it and behind it. -/
def sizeBound : Nat := maxFrameSize + 3 + 3 * Buffer.extraBufSize + Buffer.kPrependSize

/-- The state of the input buffer between two reads. -/
structure Live (b : Buffer) : Prop where
  wellFormed : b.WellFormed
  waiting : frames.next b.readable = .wait
  size_le : b.buffer.length ≤ sizeBound

theorem accepted_live (sockfd : Int) (peerAddr : Text) :
    Live (accepted sockfd peerAddr).inputBuffer := by
  refine ⟨Buffer.new_wellFormed (by decide), ?_, ?_⟩
  · change frames.next (Buffer.new Buffer.kInitialSize).readable = .wait
    rw [Buffer.new_readable]
    exact frames_inverts.next_nil
  · change (Buffer.new Buffer.kInitialSize).buffer.length ≤ sizeBound
    rw [Buffer.new, List.length_replicate]
    decide

theorem drain_waiting {xs : Bytes} :
    frames.next ((frames.drain xs).2.getD []) = .wait := by
  cases h : (frames.drain xs).2 with
  | none => exact frames_inverts.next_nil
  | some rest => exact Decoder.next_of_drain frames (Prod.ext rfl h)

/-- With fuel for every readable byte the loop cuts off all complete frames and
hands them over in order. -/
theorem decodeLoop_run (fuel : Nat) {c : TcpConnection} (wf : c.inputBuffer.WellFormed)
    (hcb : c.messageCallback = true) (hfuel : c.inputBuffer.readable.length < fuel) :
    ∃ b', (decodeLoop fuel).run c =
        .ok () { c with
          inputBuffer := b'
          effects := c.effects ++ (frames.drain c.inputBuffer.readable).1.map .message } ∧
      b'.WellFormed ∧ b'.readable = (frames.drain c.inputBuffer.readable).2.getD [] ∧
      b'.buffer = c.inputBuffer.buffer := by
  induction fuel generalizing c with
  | zero => exact absurd hfuel (Nat.not_lt_zero _)
  | succ fuel ih =>
    cases hn : frames.next c.inputBuffer.readable with
    | wait =>
      refine ⟨c.inputBuffer, ?_, wf, ?_, rfl⟩
      · simp only [decodeLoop, EStateM.run_bind, decodeFrame_wait wf hn, EStateM.run_pure,
          Decoder.drain_wait frames hn, List.map_nil, List.append_nil]
      · rw [Decoder.drain_wait frames hn, Option.getD_some]
    | broken =>
      refine ⟨c.inputBuffer.retrieveAll, ?_, Buffer.retrieveAll_wellFormed wf, ?_, rfl⟩
      · simp only [decodeLoop, EStateM.run_bind, decodeFrame_broken wf hn, EStateM.run_pure,
          Decoder.drain_broken frames hn, List.map_nil, List.append_nil]
      · rw [Decoder.drain_broken frames hn, Option.getD_none, Buffer.retrieveAll_readable]
    | item frame rest =>
      obtain ⟨b₁, hrun₁, wf₁, hread₁, hbuf₁⟩ := decodeFrame_item wf hn
      have hshrink := frames.shrinks _ _ _ hn
      obtain ⟨b₂, hrun₂, wf₂, hread₂, hbuf₂⟩ := ih
        (c := { c with inputBuffer := b₁, effects := c.effects ++ [.message frame] })
        wf₁ hcb (by
          dsimp only
          rw [hread₁]
          omega)
      dsimp only at hrun₂ hread₂ hbuf₂
      rw [hread₁] at hrun₂ hread₂
      refine ⟨b₂, ?_, wf₂, ?_, hbuf₂.trans hbuf₁⟩
      · simp only [decodeLoop, EStateM.run_bind, hrun₁, EStateM.run_get, if_pos hcb, emit,
          EStateM.run_modify, hrun₂, Decoder.drain_item frames hn, List.map_cons,
          List.append_assoc, List.singleton_append]
      · rw [hread₂, Decoder.drain_item frames hn]

/-- One turn of the decoding loop, as the input buffer sees it. -/
def Decodes (b b' : Buffer) : Prop :=
  ∃ c c' frame, decodeFrame.run c = .ok frame c' ∧ c.inputBuffer = b ∧ c'.inputBuffer = b'

theorem Decodes.storage {b b' : Buffer} (h : Decodes b b') (wf : b.WellFormed) :
    b'.WellFormed ∧ b'.buffer = b.buffer := by
  obtain ⟨c, c', frame, hrun, rfl, rfl⟩ := h
  cases hn : frames.next c.inputBuffer.readable with
  | wait =>
    rw [decodeFrame_wait wf hn] at hrun
    cases hrun
    exact ⟨wf, rfl⟩
  | broken =>
    rw [decodeFrame_broken wf hn] at hrun
    cases hrun
    exact ⟨Buffer.retrieveAll_wellFormed wf, rfl⟩
  | item item rest =>
    obtain ⟨b₁, hrun₁, wf₁, _, hbuf₁⟩ := decodeFrame_item wf hn
    rw [hrun₁] at hrun
    cases hrun
    exact ⟨wf₁, hbuf₁⟩

theorem decodes_storage {b b' : Buffer} (h : Relation.ReflTransGen Decodes b b')
    (wf : b.WellFormed) : b'.WellFormed ∧ b'.buffer = b.buffer := by
  induction h with
  | refl => exact ⟨wf, rfl⟩
  | tail _ hstep ih =>
    obtain ⟨wf₁, hbuf₁⟩ := ih
    obtain ⟨wf₂, hbuf₂⟩ := hstep.storage wf₁
    exact ⟨wf₂, hbuf₂.trans hbuf₁⟩

theorem onInput_run {α : Type} {x : Buffer.Action α} {c : TcpConnection} {a : α} {b : Buffer}
    (h : x.run c.inputBuffer = .ok a b) :
    (onInput x).run c = .ok a { c with inputBuffer := b } := by
  simp only [onInput, EStateM.run] at h ⊢
  rw [h]

/-- The space that a live buffer can need keeps it far from its limit. -/
theorem Live.room {b : Buffer} (h : Live b) :
    b.buffer.length < 2 ^ 63 ∧
      b.readable.length + 3 * Buffer.extraBufSize + Buffer.kPrependSize ≤ sizeBound ∧
      sizeBound ≤ Buffer.kMaxBufferSize := by
  have hw := wait_length h.waiting
  have hs := h.size_le
  have hb : sizeBound = 10682379 := rfl
  refine ⟨by omega, ?_, by decide⟩
  unfold sizeBound
  omega

theorem Live.readFromFd {b : Buffer} (h : Live b) (data : Bytes)
    (hfit : data.length ≤ b.offered) :
    ∃ b', (Buffer.readFromFd (.bytes data)).run b = .ok ((data.length : Int), none) b' ∧
      b'.WellFormed ∧ b'.readable = b.readable ++ data ∧ b'.buffer.length ≤ sizeBound := by
  obtain ⟨h63, hroom, hmax⟩ := h.room
  obtain ⟨b', hrun, wf', hread', hsize'⟩ :=
    Buffer.readFromFd_bytes h.wellFormed h63 (hroom.trans hmax) hfit
  exact ⟨b', hrun, wf', hread', hsize'.trans (max_le h.size_le hroom)⟩

/-- One read of some bytes: the frames they complete are handed over, and the
buffer keeps what the decoder leaves. -/
theorem handleClientRead_bytes {c : TcpConnection} (live : Live c.inputBuffer)
    (hcb : c.messageCallback = true) {data : Bytes} (hne : data ≠ [])
    (hfit : data.length ≤ c.inputBuffer.offered) :
    ∃ b', (handleClientRead (.bytes data)).run c =
        .ok () { c with
          inputBuffer := b'
          effects := c.effects ++
            (frames.drain (c.inputBuffer.readable ++ data)).1.map .message } ∧
      Live b' ∧ b'.readable = (frames.drain (c.inputBuffer.readable ++ data)).2.getD [] := by
  obtain ⟨b₁, hrun₁, wf₁, hread₁, hsize₁⟩ := live.readFromFd data hfit
  have hpos : (0 : Int) < data.length := by
    have h := List.length_pos_of_ne_nil hne
    omega
  obtain ⟨b₂, hrun₂, wf₂, hread₂, hbuf₂⟩ := decodeLoop_run (b₁.readableBytes + 1)
    (c := { c with inputBuffer := b₁ }) wf₁ hcb (by
      rw [Buffer.readableBytes_eq wf₁]
      exact Nat.lt_succ_self _)
  dsimp only at hrun₂ hread₂ hbuf₂
  rw [hread₁] at hrun₂ hread₂
  refine ⟨b₂, ?_, ⟨wf₂, ?_, ?_⟩, hread₂⟩
  · simp only [handleClientRead, EStateM.run_bind, onInput_run hrun₁, if_pos hpos, EStateM.run_get,
      hrun₂]
  · rw [hread₂]
    exact drain_waiting
  · rw [hbuf₂]
    exact hsize₁

theorem close_run (c : TcpConnection) :
    ∃ c', close.run c = .ok () c' ∧ c'.inputBuffer = c.inputBuffer ∧
      c'.messageCallback = c.messageCallback := by
  by_cases hs : c.state = .disconnected
  · refine ⟨c, ?_, rfl, rfl⟩
    simp only [close, EStateM.run_bind, EStateM.run_get, hs, ne_eq, not_true_eq_false, if_false,
      EStateM.run_pure]
  · by_cases hf : c.sockfd = -1
    · refine ⟨{ c with state := .disconnected }, ?_, rfl, rfl⟩
      simp [close, hs, hf]
    · refine ⟨{ c with
        state := .disconnected
        sockfd := -1
        effects := c.effects ++ [.closed c.sockfd] }, ?_, rfl, rfl⟩
      simp [close, hs, hf, emit]

theorem handleClientClose_run (c : TcpConnection) :
    ∃ c', handleClientClose.run c = .ok () c' ∧ c'.inputBuffer = c.inputBuffer ∧
      c'.messageCallback = c.messageCallback := by
  obtain ⟨c', hclose, hbuf, hcb⟩ := close_run { c with
    effects := c.effects ++ [.unregistered c.sockfd] ++ [.removed] }
  refine ⟨c', ?_, hbuf, hcb⟩
  simp only [handleClientClose, EStateM.run_bind, EStateM.run_get, emit, EStateM.run_modify, hclose]

theorem handleClientRead_waits {c : TcpConnection} (live : Live c.inputBuffer) {errno : Errno}
    (h : errno.wouldBlock = true) : (handleClientRead (.error errno)).run c = .ok () c := by
  have hrun := onInput_run (c := c) (Buffer.readFromFd_error live.wellFormed errno)
  have hpos : ¬ (0 : Int) < -1 := by decide
  have hzero : ¬ (-1 : Int) = 0 := by decide
  have he : ¬ (some errno ≠ some Errno.eagain ∧ some errno ≠ some Errno.ewouldblock) := by
    cases errno <;> simp [Errno.wouldBlock] at h ⊢
  simp only [handleClientRead, EStateM.run_bind, hrun, if_neg hpos, if_neg hzero, if_neg he,
    EStateM.run_pure]

theorem handleClientRead_fails {c : TcpConnection} (live : Live c.inputBuffer) {errno : Errno}
    (h : errno.wouldBlock = false) :
    (handleClientRead (.error errno)).run c = handleClientClose.run c := by
  have hrun := onInput_run (c := c) (Buffer.readFromFd_error live.wellFormed errno)
  have hpos : ¬ (0 : Int) < -1 := by decide
  have hzero : ¬ (-1 : Int) = 0 := by decide
  have he : some errno ≠ some Errno.eagain ∧ some errno ≠ some Errno.ewouldblock := by
    cases errno <;> simp [Errno.wouldBlock] at h ⊢
  simp only [handleClientRead, EStateM.run_bind, hrun, if_neg hpos, if_neg hzero, if_pos he]

theorem handleClientRead_error {c : TcpConnection} (live : Live c.inputBuffer) (errno : Errno) :
    ∃ c', (handleClientRead (.error errno)).run c = .ok () c' ∧ c'.inputBuffer = c.inputBuffer ∧
      c'.messageCallback = c.messageCallback := by
  cases h : errno.wouldBlock with
  | true => exact ⟨c, handleClientRead_waits live h, rfl, rfl⟩
  | false =>
    rw [handleClientRead_fails live h]
    exact handleClientClose_run c

theorem handleClientRead_ends {c : TcpConnection} (live : Live c.inputBuffer) :
    ∃ b, (handleClientRead (.bytes [])).run c = handleClientClose.run { c with inputBuffer := b } ∧
      Live b ∧ b.readable = c.inputBuffer.readable := by
  obtain ⟨b, hrun, wf, hread, hsize⟩ := live.readFromFd [] (Nat.zero_le _)
  rw [List.append_nil] at hread
  refine ⟨b, ?_, ⟨wf, by rw [hread]; exact live.waiting, hsize⟩, hread⟩
  simp only [handleClientRead, EStateM.run_bind, onInput_run hrun, List.length_nil,
    Int.natCast_zero, lt_irrefl, if_false, if_true]

theorem handleClientRead_eof {c : TcpConnection} (live : Live c.inputBuffer) :
    ∃ c', (handleClientRead (.bytes [])).run c = .ok () c' ∧ Live c'.inputBuffer ∧
      c'.inputBuffer.readable = c.inputBuffer.readable ∧
      c'.messageCallback = c.messageCallback := by
  obtain ⟨b, hrun, live', hread⟩ := handleClientRead_ends live
  obtain ⟨c', hclose, hbuf, hcb⟩ := handleClientClose_run { c with inputBuffer := b }
  exact ⟨c', hrun.trans hclose, by rwa [hbuf], by rw [hbuf, hread], hcb⟩

theorem handleClientRead_live {c : TcpConnection} (live : Live c.inputBuffer)
    (hcb : c.messageCallback = true) {result : Readv} (hfit : Fits c.inputBuffer result) :
    ∃ c', (handleClientRead result).run c = .ok () c' ∧ Live c'.inputBuffer ∧
      c'.messageCallback = true := by
  cases result with
  | error errno =>
    obtain ⟨c', hrun, hbuf, hcb'⟩ := handleClientRead_error live errno
    exact ⟨c', hrun, by rwa [hbuf], hcb'.trans hcb⟩
  | bytes data =>
    by_cases hne : data = []
    · subst hne
      obtain ⟨c', hrun, live', _, hcb'⟩ := handleClientRead_eof live
      exact ⟨c', hrun, live', hcb'.trans hcb⟩
    · obtain ⟨b', hrun, live', _⟩ := handleClientRead_bytes live hcb hne hfit
      exact ⟨_, hrun, live', hcb⟩

theorem serve_live {results : List Readv} {c : TcpConnection} (live : Live c.inputBuffer)
    (hcb : c.messageCallback = true) (had : Admissible c results) :
    ∃ c', (serve results).run c = .ok () c' ∧ Live c'.inputBuffer ∧ c'.messageCallback = true := by
  induction results generalizing c with
  | nil => exact ⟨c, rfl, live, hcb⟩
  | cons result results ih =>
    obtain ⟨c₁, hrun₁, live₁, hcb₁⟩ := handleClientRead_live live hcb had.1
    obtain ⟨c₂, hrun₂, live₂, hcb₂⟩ := ih live₁ hcb₁ (had.2 c₁ hrun₁)
    refine ⟨c₂, ?_, live₂, hcb₂⟩
    simp only [serve, EStateM.run_bind, hrun₁, hrun₂]

/-- Over any number of reads the connection hands over what the decoder cuts
from the same chunks, whatever happens inside the buffer. -/
theorem serve_bytes {chunks : List Bytes} {c : TcpConnection} (live : Live c.inputBuffer)
    (hcb : c.messageCallback = true) (hne : ∀ chunk ∈ chunks, chunk ≠ [])
    (had : Admissible c (chunks.map .bytes)) :
    ∃ c', (serve (chunks.map .bytes)).run c = .ok () c' ∧ Live c'.inputBuffer ∧
      c'.inputBuffer.readable = (frames.receive c.inputBuffer.readable chunks).2 ∧
      c'.effects = c.effects ++
        (frames.receive c.inputBuffer.readable chunks).1.map .message := by
  induction chunks generalizing c with
  | nil => exact ⟨c, rfl, live, rfl, by simp [Decoder.receive]⟩
  | cons chunk chunks ih =>
    obtain ⟨b₁, hrun₁, live₁, hread₁⟩ :=
      handleClientRead_bytes live hcb (hne chunk (by simp)) had.1
    obtain ⟨c₂, hrun₂, live₂, hread₂, heff₂⟩ := ih (c := { c with
      inputBuffer := b₁
      effects := c.effects ++ (frames.drain (c.inputBuffer.readable ++ chunk)).1.map .message })
      live₁ hcb (fun x hx => hne x (by simp [hx])) (had.2 _ hrun₁)
    dsimp only at hread₂ heff₂
    rw [hread₁] at hread₂ heff₂
    refine ⟨c₂, ?_, live₂, hread₂, ?_⟩
    · simp only [List.map_cons, serve, EStateM.run_bind, hrun₁, hrun₂]
    · rw [heff₂, Decoder.receive, List.map_append, List.append_assoc]

theorem accepted_serve (sockfd : Int) (peerAddr : Text) (chunks : List Bytes)
    (hne : ∀ chunk ∈ chunks, chunk ≠ [])
    (had : Admissible (accepted sockfd peerAddr) (chunks.map .bytes)) :
    ∃ c, (serve (chunks.map .bytes)).run (accepted sockfd peerAddr) = .ok () c ∧
      Live c.inputBuffer ∧ c.handed = (frames.receive [] chunks).1 ∧
      c.inputBuffer.readable = (frames.receive [] chunks).2 := by
  obtain ⟨c, hrun, live, hread, heff⟩ :=
    serve_bytes (accepted_live sockfd peerAddr) rfl hne had
  have hnil : (accepted sockfd peerAddr).inputBuffer.readable = [] := Buffer.new_readable _
  rw [hnil] at hread heff
  refine ⟨c, hrun, live, ?_, hread⟩
  rw [handed, heff, messagesOf_append]
  rfl

theorem offered_ge {b : Buffer} : Buffer.extraBufSize ≤ b.offered := by
  unfold Buffer.offered
  split <;> omega

/-- Reads of at most the stack array's size are possible in every state. -/
theorem admissible_of_small {results : List Readv} {c : TcpConnection}
    (live : Live c.inputBuffer) (hcb : c.messageCallback = true)
    (h : ∀ result ∈ results, result.size ≤ Buffer.extraBufSize) : Admissible c results := by
  induction results generalizing c with
  | nil => trivial
  | cons result results ih =>
    have hfit : Fits c.inputBuffer result := (h result (by simp)).trans offered_ge
    obtain ⟨c₁, hrun₁, live₁, hcb₁⟩ := handleClientRead_live live hcb hfit
    refine ⟨hfit, ?_⟩
    intro c' hrun'
    rw [hrun₁] at hrun'
    cases hrun'
    exact ih live₁ hcb₁ (fun later hl => h later (by simp [hl]))

end Mprpc.ServerReads
