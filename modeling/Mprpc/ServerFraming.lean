import Mprpc.BufferView
import Mprpc.FrameCodec
import Mprpc.Library.Incremental
import Mprpc.TcpServer

namespace Mprpc.ServerFraming

open Transport TcpConnection TcpServer Library.ByteOrder Library.Incremental

/-- What `decodeFrame` makes of the readable bytes, storage left aside. -/
def verdict (xs : Bytes) : Verdict UInt8 Bytes :=
  if xs.length < 4 then .wait
  else if ofBigEndian (xs.take 4) = 0 ∨ maxFrameSize < ofBigEndian (xs.take 4) then .broken
  else if xs.length < ofBigEndian (xs.take 4) + 4 then .wait
  else .item ((xs.drop 4).take (ofBigEndian (xs.take 4))) (xs.drop (ofBigEndian (xs.take 4) + 4))

theorem verdict_item {xs frame rest : Bytes} (h : verdict xs = .item frame rest) :
    4 ≤ xs.length ∧ ofBigEndian (xs.take 4) ≠ 0 ∧ ofBigEndian (xs.take 4) ≤ maxFrameSize ∧
      ofBigEndian (xs.take 4) + 4 ≤ xs.length ∧
      frame = (xs.drop 4).take (ofBigEndian (xs.take 4)) ∧
      rest = xs.drop (ofBigEndian (xs.take 4) + 4) := by
  unfold verdict at h
  split at h
  · cases h
  split at h
  · cases h
  split at h
  · cases h
  · cases h
    exact ⟨by omega, by omega, by omega, by omega, rfl, rfl⟩

theorem verdict_broken {xs : Bytes} (h : verdict xs = .broken) :
    4 ≤ xs.length ∧ (ofBigEndian (xs.take 4) = 0 ∨ maxFrameSize < ofBigEndian (xs.take 4)) := by
  unfold verdict at h
  split at h
  · cases h
  split at h
  · exact ⟨by omega, by assumption⟩
  split at h <;> cases h

theorem verdict_wait {xs : Bytes} (h : verdict xs = .wait) :
    xs.length < 4 ∨ 4 ≤ xs.length ∧ ofBigEndian (xs.take 4) ≠ 0 ∧
      ofBigEndian (xs.take 4) ≤ maxFrameSize ∧ xs.length < ofBigEndian (xs.take 4) + 4 := by
  unfold verdict at h
  split at h
  · exact .inl (by assumption)
  split at h
  · cases h
  split at h
  · exact .inr ⟨by omega, by omega, by omega, by assumption⟩
  · cases h

theorem verdict_append {xs ys : Bytes} (h : 4 ≤ xs.length) :
    verdict (xs ++ ys) =
      if ofBigEndian (xs.take 4) = 0 ∨ maxFrameSize < ofBigEndian (xs.take 4) then .broken
      else if (xs ++ ys).length < ofBigEndian (xs.take 4) + 4 then .wait
      else .item (((xs ++ ys).drop 4).take (ofBigEndian (xs.take 4)))
        ((xs ++ ys).drop (ofBigEndian (xs.take 4) + 4)) := by
  have hlen : ¬ (xs ++ ys).length < 4 := by
    rw [List.length_append]
    omega
  rw [verdict, if_neg hlen, List.take_append_of_le_length h]

/-- The stream of frames that a server connection decodes. -/
def frames : Decoder UInt8 Bytes where
  next := verdict
  shrinks xs frame rest h := by
    obtain ⟨_, hpos, _, _, _, rfl⟩ := verdict_item h
    rw [List.length_drop]
    omega
  item_append xs frame rest ys h := by
    obtain ⟨h4, hpos, hmax, hlen, rfl, rfl⟩ := verdict_item h
    have hall : ¬ (xs ++ ys).length < ofBigEndian (xs.take 4) + 4 := by
      rw [List.length_append]
      omega
    have hbody : ofBigEndian (xs.take 4) ≤ (xs.drop 4).length := by
      rw [List.length_drop]
      omega
    rw [verdict_append h4, if_neg (by omega), if_neg hall, List.drop_append_of_le_length h4,
      List.take_append_of_le_length hbody, List.drop_append_of_le_length hlen]
  broken_append xs ys h := by
    obtain ⟨h4, hbad⟩ := verdict_broken h
    rw [verdict_append h4, if_pos hbad]

theorem wait_length {xs : Bytes} (h : frames.next xs = .wait) : xs.length ≤ maxFrameSize + 3 := by
  have hk : maxFrameSize = 10485760 := rfl
  obtain hs | ⟨_, _, hmax, hs⟩ := verdict_wait h <;> omega

/-- The messages that both ends agree to frame. -/
def Framable (message : Bytes) : Prop := 1 ≤ message.length ∧ message.length ≤ maxFrameSize

theorem Framable.ne_nil {message : Bytes} (h : Framable message) : message ≠ [] := by
  rintro rfl
  exact absurd h.1 (by simp)

theorem header_encode {message : Bytes} (h : message ≠ []) (rest : Bytes) :
    ofBigEndian ((FrameCodec.encode message ++ rest).take 4) = message.length % 2 ^ 32 := by
  rw [FrameCodec.encode_take h, ofBigEndian_bigEndian]
  norm_num

theorem verdict_encode {message : Bytes} (h : Framable message) (rest : Bytes) :
    verdict (FrameCodec.encode message ++ rest) = .item message rest := by
  have hne := h.ne_nil
  have hk : maxFrameSize = 10485760 := rfl
  obtain ⟨hpos, hmax⟩ := h
  have hhead := header_encode hne rest
  rw [Nat.mod_eq_of_lt (by omega)] at hhead
  have hlen : (FrameCodec.encode message ++ rest).length = 4 + message.length + rest.length := by
    rw [List.length_append, FrameCodec.encode_length hne]
  have hrest : (FrameCodec.encode message ++ rest).drop (message.length + 4) = rest := by
    rw [Nat.add_comm, ← List.drop_drop, FrameCodec.encode_drop hne, List.drop_left]
  rw [verdict, if_neg (by omega), hhead, if_neg (by omega), if_neg (by omega), hrest,
    FrameCodec.encode_drop hne, List.take_left]

theorem verdict_short {message xs : Bytes} (h : Framable message)
    (hp : xs <+: FrameCodec.encode message) (hx : xs ≠ FrameCodec.encode message) :
    verdict xs = .wait := by
  have hne := h.ne_nil
  have hk : maxFrameSize = 10485760 := rfl
  obtain ⟨hpos, hmax⟩ := h
  obtain ⟨ys, hys⟩ := hp
  have hlen := congrArg List.length hys
  rw [List.length_append, FrameCodec.encode_length hne] at hlen
  have hpos' : 0 < ys.length := by
    apply List.length_pos_of_ne_nil
    rintro rfl
    exact hx (by rw [← hys, List.append_nil])
  by_cases h4 : xs.length < 4
  · rw [verdict, if_pos h4]
  · have hhead := header_encode hne []
    rw [List.append_nil, ← hys, List.take_append_of_le_length (by omega),
      Nat.mod_eq_of_lt (by omega)] at hhead
    rw [verdict, if_neg h4, hhead, if_neg (by omega), if_pos (by omega)]

theorem frames_inverts : frames.Inverts FrameCodec.encode Framable where
  next_nil := rfl
  next_encode _ ys h := verdict_encode h ys
  next_short _ _ h hp hx := verdict_short h hp hx

section Decode

variable {c : TcpConnection} (wf : c.inputBuffer.WellFormed)
include wf

theorem peek_header (h : 4 ≤ c.inputBuffer.readable.length) :
    (onInput (Buffer.peekInt 4)).run c =
      .ok (ofBigEndian (c.inputBuffer.readable.take 4)) c := by
  have hl : (c.inputBuffer.readable.take 4).length = 4 := by
    rw [List.length_take]
    omega
  have hswap := byteSwap_ofLittleEndian (c.inputBuffer.readable.take 4)
  rw [hl] at hswap
  have hp := Buffer.peekInt_run wf h
  simp only [Buffer.networkToHost] at hp
  norm_num at hp
  rw [hswap] at hp
  simp only [onInput, EStateM.run] at hp ⊢
  rw [hp]

theorem decodeFrame_wait (h : frames.next c.inputBuffer.readable = .wait) :
    decodeFrame.run c = .ok none c := by
  have hk : maxFrameSize = 10485760 := rfl
  have hbytes := Buffer.readableBytes_eq wf
  obtain hs | ⟨h4, hpos, hmax, hlen⟩ := verdict_wait h
  · have hshort : c.inputBuffer.readableBytes < 4 := by omega
    simp only [decodeFrame, EStateM.run_bind, EStateM.run_get, EStateM.run_pure, if_pos hshort]
  · have hlong : ¬ c.inputBuffer.readableBytes < 4 := by omega
    have hgood : ¬ (ofBigEndian (c.inputBuffer.readable.take 4) = 0 ∨
        maxFrameSize < ofBigEndian (c.inputBuffer.readable.take 4)) := by omega
    have hhalf : c.inputBuffer.readableBytes <
        (ofBigEndian (c.inputBuffer.readable.take 4) + 4) % 2 ^ 32 := by omega
    simp only [decodeFrame, EStateM.run_bind, EStateM.run_get, EStateM.run_pure, if_neg hlong,
      peek_header wf h4, if_neg hgood, if_pos hhalf]

theorem decodeFrame_broken (h : frames.next c.inputBuffer.readable = .broken) :
    decodeFrame.run c = .ok none { c with inputBuffer := c.inputBuffer.retrieveAll } := by
  have hbytes := Buffer.readableBytes_eq wf
  obtain ⟨h4, hbad⟩ := verdict_broken h
  have hlong : ¬ c.inputBuffer.readableBytes < 4 := by omega
  have hclear : (onInput (modify Buffer.retrieveAll)).run c =
      .ok () { c with inputBuffer := c.inputBuffer.retrieveAll } := rfl
  simp only [decodeFrame, EStateM.run_bind, EStateM.run_get, EStateM.run_pure, if_neg hlong,
    peek_header wf h4, if_pos hbad, hclear]

/-- A complete frame is cut off the front; the storage is left as it is. -/
theorem decodeFrame_item {frame rest : Bytes}
    (h : frames.next c.inputBuffer.readable = .item frame rest) :
    ∃ b', decodeFrame.run c = .ok (some frame) { c with inputBuffer := b' } ∧ b'.WellFormed ∧
      b'.readable = rest ∧ b'.buffer = c.inputBuffer.buffer := by
  have hk : maxFrameSize = 10485760 := rfl
  have hbytes := Buffer.readableBytes_eq wf
  obtain ⟨h4, hpos, hmax, hlen, rfl, rfl⟩ := verdict_item h
  generalize hn : ofBigEndian (c.inputBuffer.readable.take 4) = n at hpos hmax hlen
  have hlong : ¬ c.inputBuffer.readableBytes < 4 := by omega
  have hgood : ¬ (n = 0 ∨ maxFrameSize < n) := by omega
  have hfull : ¬ c.inputBuffer.readableBytes < (n + 4) % 2 ^ 32 := by omega
  have hpeek := peek_header wf h4
  rw [hn] at hpeek
  let b₁ := c.inputBuffer.retrieve 4
  have wf₁ : b₁.WellFormed := Buffer.retrieve_wellFormed wf 4
  have hread₁ : b₁.readable = c.inputBuffer.readable.drop 4 := Buffer.retrieve_readable wf 4
  have hskip : (onInput (modify (Buffer.retrieve · 4))).run c =
      .ok () { c with inputBuffer := b₁ } := rfl
  have hbody : n ≤ b₁.readable.length := by
    rw [hread₁, List.length_drop]
    omega
  have htake : (onInput (Buffer.retrieveAsVector n)).run { c with inputBuffer := b₁ } =
      .ok (b₁.readable.take n) { c with inputBuffer := b₁.retrieve n } := by
    have hrun := Buffer.retrieveAsVector_run wf₁ hbody
    simp only [onInput, EStateM.run] at hrun ⊢
    rw [hrun]
  refine ⟨b₁.retrieve n, ?_, Buffer.retrieve_wellFormed wf₁ n, ?_, ?_⟩
  · simp only [decodeFrame, EStateM.run_bind, EStateM.run_get, EStateM.run_pure, if_neg hlong,
      hpeek, if_neg hgood, if_neg hfull, hskip, htake, hread₁]
  · rw [Buffer.retrieve_readable wf₁, hread₁, List.drop_drop, Nat.add_comm]
  · rw [Buffer.retrieve_buffer, Buffer.retrieve_buffer]

end Decode

end Mprpc.ServerFraming
