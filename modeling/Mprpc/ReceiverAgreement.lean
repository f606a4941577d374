import Mprpc.MessageHandler
import Mprpc.ServerStream

namespace Mprpc.ReceiverAgreement

open Transport TcpConnection TcpServer ServerFraming ServerReads MessageHandler
open Library.ByteOrder Library.Incremental

/-- The lengths that stand at the frame boundaries of a stream. -/
def headers (xs : Bytes) : List Nat :=
  if h : xs.length < 4 then []
  else ofBigEndian (xs.take 4) :: headers (xs.drop (ofBigEndian (xs.take 4) + 4))
termination_by xs.length
decreasing_by
  rw [List.length_drop]
  omega

theorem headers_short {xs : Bytes} (h : xs.length < 4) : headers xs = [] := by
  rw [headers, dif_pos h]

theorem headers_cons {xs : Bytes} (h : 4 ≤ xs.length) :
    headers xs = ofBigEndian (xs.take 4) :: headers (xs.drop (ofBigEndian (xs.take 4) + 4)) := by
  rw [headers, dif_neg (not_lt.mpr h)]

theorem plain_wait {xs : Bytes} (h : FrameCodec.decode xs = none) :
    plainFrames.next xs = .wait := by
  simp only [plainFrames, h]

theorem plain_item {xs message rest : Bytes} (h : FrameCodec.decode xs = some (message, rest)) :
    plainFrames.next xs = .item message rest := by
  simp only [plainFrames, h]

/-- At a header that both accept, the two decoders do the same. -/
theorem next_agree {xs : Bytes}
    (h : ∀ n ∈ (headers xs).head?, n ≠ 0 ∧ n ≤ maxFrameSize) :
    frames.next xs = plainFrames.next xs := by
  have hk : maxFrameSize = 10485760 := rfl
  change verdict xs = _
  by_cases h4 : xs.length < 4
  · have hnone : FrameCodec.decode xs = none := by rw [FrameCodec.decode_eq, if_pos h4]
    rw [plain_wait hnone, verdict, if_pos h4]
  · rw [headers_cons (not_lt.mp h4)] at h
    obtain ⟨hne, hmax⟩ := h _ rfl
    by_cases hall : xs.length < ofBigEndian (xs.take 4) + 4
    · have hnone : FrameCodec.decode xs = none := by
        rw [FrameCodec.decode_eq, if_neg h4, if_neg (by omega), if_pos hall]
      rw [plain_wait hnone, verdict, if_neg h4, if_neg (by omega), if_pos hall]
    · have hsome : FrameCodec.decode xs = some ((xs.drop 4).take (ofBigEndian (xs.take 4)),
          xs.drop (ofBigEndian (xs.take 4) + 4)) := by
        rw [FrameCodec.decode_eq, if_neg h4, if_neg (by omega), if_neg hall]
      rw [plain_item hsome, verdict, if_neg h4, if_neg (by omega), if_neg hall]

theorem headers_rest {xs message rest : Bytes} (h : plainFrames.next xs = .item message rest) :
    headers xs = ofBigEndian (xs.take 4) :: headers rest := by
  simp only [plainFrames] at h
  split at h
  · cases h
  · cases h
    obtain ⟨h4, -, -, -, rfl⟩ := FrameCodec.decode_some (by assumption)
    exact headers_cons h4

/-- The induction is on the frames that the plain decoder cuts off. -/
theorem drain_agree {xs : Bytes} (h : ∀ n ∈ headers xs, n ≠ 0 ∧ n ≤ maxFrameSize) :
    frames.drain xs = plainFrames.drain xs := by
  have hnext : frames.next xs = plainFrames.next xs :=
    next_agree fun n hn => h n (List.mem_of_mem_head? hn)
  induction xs using Decoder.drain.induct plainFrames with
  | case1 xs hw => rw [Decoder.drain_wait _ hw, Decoder.drain_wait _ (hnext.trans hw)]
  | case2 xs message rest hi _ ih =>
    have hrest : ∀ n ∈ headers rest, n ≠ 0 ∧ n ≤ maxFrameSize := by
      intro n hn
      apply h
      rw [headers_rest hi]
      exact List.mem_cons_of_mem _ hn
    have htail := ih hrest (next_agree fun n hn => hrest n (List.mem_of_mem_head? hn))
    rw [Decoder.drain_item _ hi, Decoder.drain_item _ (hnext.trans hi), htail]
  | case3 xs hb =>
    simp only [plainFrames] at hb
    split at hb <;> cases hb

theorem drain_ne_nil (xs : Bytes) : [] ∉ (frames.drain xs).1 := by
  induction xs using Decoder.drain.induct frames with
  | case1 xs hw => simp [Decoder.drain_wait _ hw]
  | case2 xs frame rest hi _ ih =>
    obtain ⟨-, hpos, -, hlen, hframe, -⟩ := verdict_item hi
    have hne : frame ≠ [] := by
      apply List.length_pos_iff.mp
      rw [hframe, List.length_take, List.length_drop]
      omega
    rw [Decoder.drain_item _ hi]
    exact List.not_mem_cons_of_ne_of_not_mem hne.symm ih
  | case3 xs hb => simp [Decoder.drain_broken _ hb]

theorem receive_ne_nil (pending : Bytes) (chunks : List Bytes) :
    [] ∉ (frames.receive pending chunks).1 := by
  induction chunks generalizing pending with
  | nil => simp [Decoder.receive]
  | cons chunk chunks ih =>
    rw [Decoder.receive, List.mem_append]
    exact not_or.mpr ⟨drain_ne_nil _, ih _⟩

/-- The plain receiver takes a header of zero for an empty message. -/
theorem drain_nil_mem {xs : Bytes} (hmax : ∀ n ∈ headers xs, n ≤ maxFrameSize)
    (hzero : 0 ∈ headers xs) : [] ∈ (plainFrames.drain xs).1 := by
  have hk : maxFrameSize = 10485760 := rfl
  induction xs using Decoder.drain.induct plainFrames with
  | case1 xs hw =>
    by_cases h4 : xs.length < 4
    · rw [headers_short h4] at hzero
      cases hzero
    · rw [headers_cons (not_lt.mp h4)] at hzero hmax
      have hle := hmax _ (List.mem_cons_self ..)
      by_cases hall : xs.length < ofBigEndian (xs.take 4) + 4
      · rw [headers_short (by rw [List.length_drop]; omega), List.mem_singleton] at hzero
        omega
      · have hsome := FrameCodec.decode_eq xs
        rw [if_neg h4, if_neg (by omega), if_neg hall] at hsome
        rw [plain_item hsome] at hw
        cases hw
  | case2 xs message rest hi _ ih =>
    have hheaders := headers_rest hi
    rw [hheaders] at hzero hmax
    rw [Decoder.drain_item _ hi]
    cases List.mem_cons.mp hzero with
    | inl hfirst =>
      have hsome : FrameCodec.decode xs = some (message, rest) := by
        simp only [plainFrames] at hi
        split at hi
        · cases hi
        · cases hi
          assumption
      obtain ⟨-, -, -, hmessage, -⟩ := FrameCodec.decode_some hsome
      rw [← hfirst, List.take_zero] at hmessage
      rw [hmessage]
      exact List.mem_cons_self ..
    | inr hlater =>
      exact List.mem_cons_of_mem _ (ih (fun n hn => hmax n (List.mem_cons_of_mem _ hn)) hlater)
  | case3 xs hb =>
    simp only [plainFrames] at hb
    split at hb <;> cases hb

theorem delivered_drain (chunks : List Bytes) :
    (chunks.foldl handleData (MessageHandler.new true)).delivered =
      (plainFrames.drain chunks.flatten).1 := by
  have hwaiting : (MessageHandler.new true).Waiting := rfl
  obtain ⟨messages, rest, hdrain, hrun⟩ := handleData_drain hwaiting chunks.flatten
  have hempty : (MessageHandler.new true).receiveBuffer = [] := rfl
  rw [hempty, List.nil_append] at hdrain
  rw [foldl_handleData hwaiting, hrun, hdrain]
  rfl

/-- Among the streams whose headers the server does not find too large, the two
receivers agree on exactly those that have no header of zero. -/
theorem receivers_agree_iff (sockfd : Int) (peerAddr : Text) (chunks : List Bytes)
    (hne : ∀ chunk ∈ chunks, chunk ≠ [])
    (had : Admissible (accepted sockfd peerAddr) (chunks.map .bytes))
    (hmax : ∀ n ∈ headers chunks.flatten, n ≤ 10 * 1024 * 1024) :
    ∃ c, (serve (chunks.map .bytes)).run (accepted sockfd peerAddr) = .ok () c ∧
      (c.handed = (chunks.foldl handleData (MessageHandler.new true)).delivered ↔
        ∀ n ∈ headers chunks.flatten, 1 ≤ n) := by
  obtain ⟨c, hrun, -, hhanded, -⟩ := accepted_serve sockfd peerAddr chunks hne had
  refine ⟨c, hrun, ?_⟩
  rw [hhanded, delivered_drain]
  constructor
  · intro hsame n hn
    by_contra hzero
    obtain rfl : n = 0 := by omega
    have hempty := drain_nil_mem hmax hn
    rw [← hsame] at hempty
    exact receive_ne_nil [] chunks hempty
  · intro hpos
    have hwaiting : (MessageHandler.new true).Waiting := rfl
    obtain ⟨messages, rest, hdrain, -⟩ := handleData_drain hwaiting chunks.flatten
    have hempty : (MessageHandler.new true).receiveBuffer = [] := rfl
    rw [hempty, List.nil_append] at hdrain
    have hagree : frames.drain chunks.flatten = plainFrames.drain chunks.flatten := by
      apply drain_agree
      intro n hn
      exact ⟨Nat.one_le_iff_ne_zero.mp (hpos n hn), hmax n hn⟩
    rw [hdrain] at hagree
    have hreceive := Decoder.receive_flatten frames [] chunks frames_inverts.next_nil
      (by rwa [List.nil_append])
    rw [hreceive, hdrain]

theorem headers_one_byte : headers [0, 0, 0, 1, 65] = [1] := by
  have hheader : ofBigEndian (([0, 0, 0, 1, 65] : Bytes).take 4) = 1 := by decide
  rw [headers_cons (by decide), hheader, headers_short (by decide)]

theorem receivers_agree_iff_cut_header :
    ∃ c, (serve [.bytes [0, 0], .bytes [0, 1, 65]]).run (accepted 5 []) = .ok () c ∧
      (c.handed = ([[0, 0], [0, 1, 65]].foldl handleData (MessageHandler.new true)).delivered ↔
        ∀ n ∈ headers [[0, 0], [0, 1, 65]].flatten, 1 ≤ n) := by
  have hheaders : headers [[0, 0], [0, 1, 65]].flatten = [1] := headers_one_byte
  exact receivers_agree_iff 5 [] [[0, 0], [0, 1, 65]] (by decide)
    (admissible_of_small (accepted_live 5 []) rfl (by decide)) (by rw [hheaders]; decide)

/-- At a header of zero one receiver delivers an empty message, the other nothing. -/
theorem receivers_differ_at_zero :
    (∀ n ∈ headers [[0, 0, 0, 0]].flatten, n ≤ 10 * 1024 * 1024) ∧
    Admissible (accepted 5 []) ([[0, 0, 0, 0]].map .bytes) ∧
    (∃ c, (serve ([[0, 0, 0, 0]].map .bytes)).run (accepted 5 []) = .ok () c ∧ c.handed = []) ∧
    ([[0, 0, 0, 0]].foldl handleData (MessageHandler.new true)).delivered = [[]] := by
  have hzero : ofBigEndian (([0, 0, 0, 0] : Bytes).take 4) = 0 := by decide
  have hheaders : headers [0, 0, 0, 0] = [0] := by
    rw [headers_cons (by decide), hzero, headers_short (by decide)]
  have hadmissible : Admissible (accepted 5 []) ([[0, 0, 0, 0]].map .bytes) :=
    admissible_of_small (accepted_live 5 []) rfl (by decide)
  have hmax : ∀ n ∈ headers [0, 0, 0, 0], n ≤ 10 * 1024 * 1024 := by
    rw [hheaders]
    decide
  refine ⟨hmax, hadmissible, ?_, ?_⟩
  · obtain ⟨c, hrun, -, hhanded, -⟩ := accepted_serve 5 [] [[0, 0, 0, 0]] (by decide) hadmissible
    have hbad : ofBigEndian [0, 0, 0, 0] = 0 := by decide
    have hbroken : frames.drain [0, 0, 0, 0] = ([], none) :=
      Decoder.drain_broken frames (ServerStream.header_breaks rfl (.inl hbad) [])
    refine ⟨c, hrun, ?_⟩
    rw [hhanded]
    simp only [Decoder.receive, List.nil_append, hbroken]
  · have hitem : plainFrames.next [0, 0, 0, 0] = .item [] [] := by rfl
    rw [delivered_drain]
    change (plainFrames.drain [0, 0, 0, 0]).1 = [[]]
    rw [Decoder.drain_item plainFrames hitem,
      Decoder.drain_wait plainFrames plainFrames_inverts.next_nil]

end Mprpc.ReceiverAgreement
