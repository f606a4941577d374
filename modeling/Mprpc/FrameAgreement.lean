import Mprpc.ClientReads
import Mprpc.ServerReads

namespace Mprpc.FrameAgreement

open Transport TcpConnection TcpClient ServerFraming ClientReads
open Library.ByteOrder Library.Incremental

/-- A buffer filled with the given bytes. -/
def filled (data : Bytes) : Buffer :=
  ⟨List.replicate Buffer.kPrependSize 0 ++ data, Buffer.kPrependSize,
    Buffer.kPrependSize + data.length⟩

theorem filled_wellFormed {data : Bytes} (h : Buffer.kPrependSize + data.length < 2 ^ 64) :
    (filled data).WellFormed := by
  have hlen : (filled data).buffer.length = Buffer.kPrependSize + data.length := by
    rw [filled, List.length_append, List.length_replicate]
  refine ⟨Nat.le_add_right _ _, ?_, ?_, ?_⟩
  · rw [hlen]
    exact le_rfl
  · rw [hlen]
    exact Nat.le_add_right _ _
  · rwa [hlen]

theorem filled_readable (data : Bytes) : (filled data).readable = data := by
  have hlen : (List.replicate Buffer.kPrependSize (0 : UInt8)).length = Buffer.kPrependSize :=
    List.length_replicate
  simp [filled, Buffer.readable, List.drop_left' hlen, List.take_of_length_le]

/-- The server's decoder hands over a message and leaves what came after it. -/
def ServerDelivers (c : TcpConnection) (m more : Bytes) : Prop :=
  ∃ b, decodeFrame.run c = .ok (some m) { c with inputBuffer := b } ∧ b.readable = more

/-- The client's `receive` returns a message after finitely many calls of `recv`
and leaves what came after it. -/
def ClientDelivers (c : TcpClient) (recvs : Nat → Recv) (m more : Bytes) : Prop :=
  ∃ n, receive.run { c with recvs := outcomes recvs 0 n } =
    some (some m, { c with incoming := more, recvs := [] })

theorem decodeFrame_length {c c' : TcpConnection} (wf : c.inputBuffer.WellFormed) {m : Bytes}
    (h : decodeFrame.run c = .ok (some m) c') : m.length ≤ maxFrameSize := by
  cases hnext : frames.next c.inputBuffer.readable with
  | wait =>
    rw [decodeFrame_wait wf hnext] at h
    cases h
  | broken =>
    rw [decodeFrame_broken wf hnext] at h
    cases h
  | item frame rest =>
    obtain ⟨b, hrun, _⟩ := decodeFrame_item wf hnext
    obtain ⟨_, _, hmax, _, hframe, _⟩ := verdict_item hnext
    rw [hrun] at h
    cases h
    rw [hframe, List.length_take]
    omega

theorem serverDelivers_iff {c : TcpConnection} (wf : c.inputBuffer.WellFormed) {m more : Bytes}
    (hm : m ≠ []) (hread : c.inputBuffer.readable = FrameCodec.encode m ++ more) :
    ServerDelivers c m more ↔ m.length ≤ maxFrameSize := by
  constructor
  · rintro ⟨b, hrun, _⟩
    exact decodeFrame_length wf hrun
  · intro hmax
    have hnext : frames.next c.inputBuffer.readable = .item m more := by
      rw [hread]
      exact verdict_encode ⟨List.length_pos_of_ne_nil hm, hmax⟩ more
    obtain ⟨b, hrun, _, hrest, _⟩ := decodeFrame_item wf hnext
    exact ⟨b, hrun, hrest⟩

theorem receive_frame {c : TcpClient} (hstate : c.state = .connected) {recvs : Nat → Recv}
    (h : Delivers recvs) {m more : Bytes} (hm : m ≠ []) (hmax : m.length ≤ maxMessageSize)
    (hincoming : c.incoming = FrameCodec.encode m ++ more) : ClientDelivers c recvs m more := by
  have hpos := List.length_pos_of_ne_nil hm
  have hlen : c.incoming.length = 4 + m.length + more.length := by
    rw [hincoming, List.length_append, FrameCodec.encode_length hm]
  obtain ⟨i, hheader⟩ := readExactly_completes h 0 4 (by omega) c (by omega)
  have htake : c.incoming.take 4 = bigEndian 4 m.length := by
    rw [hincoming, FrameCodec.encode_take hm]
  have hdrop : c.incoming.drop 4 = m ++ more := by
    rw [hincoming, FrameCodec.encode_drop hm]
  rw [htake, hdrop] at hheader
  obtain ⟨j, hbody⟩ := readExactly_completes h i m.length hpos { c with incoming := m ++ more } (by
    rw [List.length_append]
    omega)
  rw [List.take_left, List.drop_left] at hbody
  have hrest := hbody []
  rw [List.append_nil] at hrest
  have hk : maxMessageSize = 10485760 := rfl
  have hvalue := FrameCodec.header_value (n := m.length) (by omega)
  have hgood : ¬ (m.length = 0 ∨ maxMessageSize < m.length) := by omega
  refine ⟨i + j, ?_⟩
  rw [outcomes_add, Nat.zero_add,
    receive_run (c := { c with recvs := outcomes recvs 0 i ++ outcomes recvs i j }) hstate,
    hheader (outcomes recvs i j), Option.bind_some]
  dsimp only
  rw [hvalue, if_neg hgood]
  exact hrest

theorem clientDelivers_iff {c : TcpClient} (hstate : c.state = .connected) {recvs : Nat → Recv}
    (h : Delivers recvs) {m more : Bytes} (hm : m ≠ [])
    (hincoming : c.incoming = FrameCodec.encode m ++ more) :
    ClientDelivers c recvs m more ↔ m.length ≤ maxMessageSize := by
  constructor
  · rintro ⟨n, hrun⟩
    exact receive_length hrun
  · intro hmax
    exact receive_frame hstate h hm hmax hincoming

/-- Both receivers undo the encoder on the messages of at most 10 MiB and on no
others. -/
theorem decoders_agree (m more : Bytes) (hm : m ≠ []) :
    (∀ c : TcpConnection, c.inputBuffer.WellFormed →
      c.inputBuffer.readable = FrameCodec.encode m ++ more →
        (ServerDelivers c m more ↔ m.length ≤ 10 * 1024 * 1024)) ∧
    ∀ (c : TcpClient) (recvs : Nat → Recv), c.state = .connected → Delivers recvs →
      c.incoming = FrameCodec.encode m ++ more →
        (ClientDelivers c recvs m more ↔ m.length ≤ 10 * 1024 * 1024) := by
  refine ⟨?_, ?_⟩
  · intro c wf hread
    exact serverDelivers_iff wf hm hread
  · intro c recvs hstate h hincoming
    exact clientDelivers_iff hstate h hm hincoming

theorem delivers_ready : Delivers (fun _ => .ready 1) := by
  refine ⟨fun _ => by decide, fun _ _ => by simp, fun i => ⟨i, le_rfl, rfl⟩, ?_⟩
  intro i n _
  have hcount : (outcomes (fun _ => .ready 1) i n).countP Recv.waits = 0 := by
    apply List.countP_eq_zero.mpr
    intro x hx
    obtain ⟨_, _, rfl⟩ := List.mem_map.mp hx
    decide
  rw [hcount]
  exact Nat.zero_le _

theorem decoders_agree_one_byte :
    (∀ c : TcpConnection, c.inputBuffer.WellFormed →
      c.inputBuffer.readable = FrameCodec.encode [65] ++ [0] →
        (ServerDelivers c [65] [0] ↔ [65].length ≤ 10 * 1024 * 1024)) ∧
    ∀ (c : TcpClient) (recvs : Nat → Recv), c.state = .connected → Delivers recvs →
      c.incoming = FrameCodec.encode [65] ++ [0] →
        (ClientDelivers c recvs [65] [0] ↔ [65].length ≤ 10 * 1024 * 1024) :=
  decoders_agree [65] [0] (by decide)

theorem beyond_limit_not_delivered {m : Bytes} (hbig : maxFrameSize < m.length)
    (hsize : m.length < 2 ^ 32) :
    FrameCodec.encode m ≠ [] ∧ (filled (FrameCodec.encode m)).WellFormed ∧
    ¬ ServerDelivers { TcpServer.accepted 5 [] with inputBuffer := filled (FrameCodec.encode m) }
      m [] ∧
    ¬ ClientDelivers ⟨3, .connected, FrameCodec.encode m, [], [], []⟩ (fun _ => .ready 1) m [] := by
  have hm : m ≠ [] := List.ne_nil_of_length_pos (Nat.zero_lt_of_lt hbig)
  have hframe := FrameCodec.encode_length hm
  have wf : (filled (FrameCodec.encode m)).WellFormed := by
    apply filled_wellFormed
    unfold Buffer.kPrependSize
    omega
  refine ⟨?_, wf, ?_, ?_⟩
  · apply List.ne_nil_of_length_pos
    omega
  · rw [serverDelivers_iff wf hm (by rw [filled_readable, List.append_nil])]
    exact Nat.not_le.mpr hbig
  · rw [clientDelivers_iff rfl delivers_ready hm (List.append_nil _).symm]
    exact Nat.not_le.mpr hbig

/-- The shortest message that is too long for the receivers. -/
def oversized : Bytes := List.replicate (maxFrameSize + 1) 0

theorem oversized_length : oversized.length = maxFrameSize + 1 := List.length_replicate

theorem oversized_not_delivered :
    (FrameCodec.encode oversized ≠ [] ∧ (filled (FrameCodec.encode oversized)).WellFormed ∧
    ¬ ServerDelivers
      { TcpServer.accepted 5 [] with inputBuffer := filled (FrameCodec.encode oversized) }
      oversized [] ∧
    ¬ ClientDelivers ⟨3, .connected, FrameCodec.encode oversized, [], [], []⟩
      (fun _ => .ready 1) oversized []) ∧ Delivers (fun _ => .ready 1) := by
  refine ⟨?_, delivers_ready⟩
  apply beyond_limit_not_delivered
  · rw [oversized_length]
    exact Nat.lt_succ_self _
  · rw [oversized_length]
    decide

end Mprpc.FrameAgreement
