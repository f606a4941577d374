import Mprpc.ServerReads

namespace Mprpc.ServerStream

open Transport TcpConnection TcpServer ServerFraming ServerReads
open Library.ByteOrder Library.Incremental

/-- Whatever the chunks, the frames handed over so far are the longest run of
messages that has arrived completely, and the rest waits in the buffer. -/
theorem framing_lossless (sockfd : Int) (peerAddr : Text) (messages : List Bytes)
    (hm : ∀ m ∈ messages, 1 ≤ m.length ∧ m.length ≤ 10 * 1024 * 1024)
    (chunks : List Bytes) (hne : ∀ chunk ∈ chunks, chunk ≠ [])
    (hcut : chunks.flatten <+: messages.flatMap FrameCodec.encode)
    (had : Admissible (accepted sockfd peerAddr) (chunks.map .bytes)) :
    ∃ c k, (serve (chunks.map .bytes)).run (accepted sockfd peerAddr) = .ok () c ∧
      k ≤ messages.length ∧ c.handed = messages.take k ∧
      c.inputBuffer.readable =
        chunks.flatten.drop ((messages.take k).flatMap FrameCodec.encode).length ∧
      ∀ j ≤ messages.length,
        ((messages.take j).flatMap FrameCodec.encode).length ≤ chunks.flatten.length ↔ j ≤ k := by
  obtain ⟨c, hrun, _, hhanded, hread⟩ := accepted_serve sockfd peerAddr _ hne had
  obtain ⟨k, hk, hdrain, hlongest⟩ := frames_inverts.drain_prefix messages hm hcut
  have hrec := Decoder.receive_flatten frames [] chunks frames_inverts.next_nil
    (by rwa [List.nil_append])
  refine ⟨c, k, hrun, hk, ?_, ?_, hlongest⟩
  · rw [hhanded, hrec]
  · rw [hread, hrec]

theorem framing_lossless_split_header :
    ∃ c k, (serve [.bytes [0, 0], .bytes [0, 1, 65, 0]]).run (accepted 5 []) = .ok () c ∧
      k ≤ [[65], [66]].length ∧ c.handed = [[65], [66]].take k ∧
      c.inputBuffer.readable =
        [[0, 0], [0, 1, 65, 0]].flatten.drop
          (([[65], [66]].take k).flatMap FrameCodec.encode).length ∧
      ∀ j ≤ [[65], [66]].length, (([[65], [66]].take j).flatMap FrameCodec.encode).length ≤
        [[0, 0], [0, 1, 65, 0]].flatten.length ↔ j ≤ k := by
  have h := framing_lossless 5 [] [[65], [66]] (by simp) [[0, 0], [0, 1, 65, 0]] (by simp)
    (by decide) (admissible_of_small (accepted_live 5 []) rfl (by decide))
  exact h

theorem header_breaks {header : Bytes} (hlen : header.length = 4)
    (hbad : ofBigEndian header = 0 ∨ maxFrameSize < ofBigEndian header) (tail : Bytes) :
    frames.next (header ++ tail) = .broken := by
  change verdict (header ++ tail) = .broken
  have htake : header.take 4 = header := List.take_of_length_le (by omega)
  rw [verdict_append (by omega), htake, if_pos hbad]

theorem drain_before_header {messages : List Bytes} (hm : ∀ m ∈ messages, Framable m)
    {header xs : Bytes}
    (hxs : xs <+: messages.flatMap FrameCodec.encode ++ header)
    (hlt : xs.length < (messages.flatMap FrameCodec.encode).length + 4) :
    ∃ front rest, frames.drain xs = (front, some rest) := by
  by_cases hle : xs.length ≤ (messages.flatMap FrameCodec.encode).length
  · obtain ⟨k, _, hdrain, _⟩ := frames_inverts.drain_prefix messages hm
      (List.prefix_of_prefix_length_le hxs (List.prefix_append _ _) hle)
    exact ⟨_, _, hdrain⟩
  · obtain ⟨part, rfl⟩ := List.prefix_of_prefix_length_le (List.prefix_append _ _) hxs (by omega)
    have hpart : frames.next part = .wait := by
      change verdict part = .wait
      rw [List.length_append] at hlt
      rw [verdict, if_pos (by omega)]
    rw [frames_inverts.drain_encoded hm, Decoder.drain_wait frames hpart]
    exact ⟨_, _, rfl⟩

theorem bad_header_delivery_depends_on_chunks :
    Admissible (accepted 5 []) [.bytes [0, 0, 0, 0, 0, 0, 0, 1, 65]] ∧
    Admissible (accepted 5 []) [.bytes [0, 0, 0, 0], .bytes [0, 0, 0, 1, 65]] ∧
    (∃ c, (serve [.bytes [0, 0, 0, 0, 0, 0, 0, 1, 65]]).run (accepted 5 []) = .ok () c ∧
      c.handed = []) ∧
    ∃ c, (serve [.bytes [0, 0, 0, 0], .bytes [0, 0, 0, 1, 65]]).run (accepted 5 []) = .ok () c ∧
      c.handed = [[65]] := by
  have hwhole : Admissible (accepted 5 []) [.bytes [0, 0, 0, 0, 0, 0, 0, 1, 65]] :=
    admissible_of_small (accepted_live 5 []) rfl (by decide)
  have hcut : Admissible (accepted 5 []) [.bytes [0, 0, 0, 0], .bytes [0, 0, 0, 1, 65]] :=
    admissible_of_small (accepted_live 5 []) rfl (by decide)
  have hdrop : ∀ tail, frames.drain ([0, 0, 0, 0] ++ tail) = ([], none) := by
    intro tail
    exact Decoder.drain_broken frames (header_breaks rfl (.inl (by decide)) tail)
  have hframe : frames.drain [0, 0, 0, 1, 65] = ([[65]], some []) := by
    have hitem : frames.next [0, 0, 0, 1, 65] = .item [65] [] := by rfl
    rw [Decoder.drain_item frames hitem, Decoder.drain_wait frames frames_inverts.next_nil]
  obtain ⟨c, hrun, _, hhanded, _⟩ :=
    accepted_serve 5 [] [[0, 0, 0, 0, 0, 0, 0, 1, 65]] (by decide) hwhole
  obtain ⟨c', hrun', _, hhanded', _⟩ :=
    accepted_serve 5 [] [[0, 0, 0, 0], [0, 0, 0, 1, 65]] (by decide) hcut
  refine ⟨hwhole, hcut, ⟨c, hrun, ?_⟩, c', hrun', ?_⟩
  · have h : frames.drain [0, 0, 0, 0, 0, 0, 0, 1, 65] = ([], none) := hdrop [0, 0, 0, 1, 65]
    rw [hhanded, Decoder.receive, List.nil_append, h]
    rfl
  · have h : frames.drain [0, 0, 0, 0] = ([], none) := hdrop []
    rw [hhanded']
    simp only [Decoder.receive, List.nil_append, h, hframe, Option.getD_none, List.append_nil]

/-- Once the bad header is complete, the messages before it have been handed
over, and nothing that came along with it is kept. -/
theorem drain_at_header {messages : List Bytes} (hm : ∀ m ∈ messages, Framable m)
    {header tail xs : Bytes} (hlen : header.length = 4)
    (hbad : ofBigEndian header = 0 ∨ maxFrameSize < ofBigEndian header)
    (hxs : xs <+: messages.flatMap FrameCodec.encode ++ header ++ tail)
    (hge : (messages.flatMap FrameCodec.encode).length + 4 ≤ xs.length) :
    frames.drain xs = (messages, none) := by
  obtain ⟨more, rfl⟩ := List.prefix_of_prefix_length_le (List.prefix_append _ tail) hxs (by
    rw [List.length_append]
    omega)
  have hstop := Decoder.drain_broken frames (header_breaks hlen hbad more)
  rw [List.append_assoc, frames_inverts.drain_encoded hm, hstop, List.append_nil]

/-- The read that completes a bad header hands over exactly the frames before
it and empties the buffer; the reads after it are decoded as a new stream. -/
theorem bad_header_discards (sockfd : Int) (peerAddr : Text) (messages : List Bytes)
    (hm : ∀ m ∈ messages, 1 ≤ m.length ∧ m.length ≤ 10 * 1024 * 1024)
    (header tail : Bytes) (hlen : header.length = 4)
    (hbad : ofBigEndian header = 0 ∨ 10 * 1024 * 1024 < ofBigEndian header)
    (before after : List Bytes) (chunk : Bytes)
    (hne : ∀ x ∈ before ++ chunk :: after, x ≠ [])
    (hcut : (before ++ chunk :: after).flatten =
      messages.flatMap FrameCodec.encode ++ header ++ tail)
    (hbefore : before.flatten.length < (messages.flatMap FrameCodec.encode).length + 4)
    (hchunk : (messages.flatMap FrameCodec.encode).length + 4 ≤
      before.flatten.length + chunk.length)
    (had : Admissible (accepted sockfd peerAddr) ((before ++ chunk :: after).map .bytes)) :
    (∃ c, (serve ((before ++ [chunk]).map .bytes)).run (accepted sockfd peerAddr) = .ok () c ∧
      c.handed = messages ∧ c.inputBuffer.readable = []) ∧
    ∃ c, (serve ((before ++ chunk :: after).map .bytes)).run (accepted sockfd peerAddr) =
        .ok () c ∧
      c.handed = messages ++ (frames.receive [] after).1 ∧
      c.inputBuffer.readable = (frames.receive [] after).2 := by
  have hread :
      before.flatten ++ chunk <+: messages.flatMap FrameCodec.encode ++ header ++ tail := by
    rw [← hcut, List.flatten_append, List.flatten_cons, ← List.append_assoc]
    exact List.prefix_append _ _
  obtain ⟨front, rest, hdrain⟩ := drain_before_header hm
    (List.prefix_of_prefix_length_le ((List.prefix_append _ _).trans hread)
      (List.prefix_append _ tail) (by
        rw [List.length_append]
        omega)) hbefore
  have hbreak := drain_at_header hm hlen hbad hread (by
    rw [List.length_append]
    omega)
  obtain ⟨hupto, hlater⟩ :=
    Decoder.receive_broken frames after frames_inverts.next_nil hdrain hbreak
  have hsplit : (before ++ chunk :: after).map Readv.bytes =
      (before ++ [chunk]).map .bytes ++ after.map .bytes := by
    rw [← List.map_append, List.append_assoc, List.singleton_append]
  have hhead : ∀ x ∈ before ++ [chunk], x ≠ [] := by
    intro x hx
    apply hne
    rw [List.append_cons]
    exact List.mem_append_left _ hx
  obtain ⟨c, hrun, _, hhanded, hleft⟩ :=
    accepted_serve sockfd peerAddr (before ++ [chunk]) hhead
      (by rw [hsplit] at had; exact had.append_left)
  obtain ⟨c', hrun', _, hhanded', hleft'⟩ := accepted_serve sockfd peerAddr _ hne had
  refine ⟨⟨c, hrun, ?_, ?_⟩, c', hrun', ?_, ?_⟩
  · rw [hhanded, hupto]
  · rw [hleft, hupto]
  · rw [hhanded', hlater]
  · rw [hleft', hlater]

theorem bad_header_discards_zero_length :
    (∃ c, (serve [.bytes [0, 0, 0, 1, 65, 0], .bytes [0, 0, 0]]).run (accepted 5 []) =
        .ok () c ∧
      c.handed = [[65]] ∧ c.inputBuffer.readable = []) ∧
    ∃ c, (serve [.bytes [0, 0, 0, 1, 65, 0], .bytes [0, 0, 0], .bytes [0, 0]]).run
        (accepted 5 []) = .ok () c ∧
      c.handed = [[65]] ++ (frames.receive [] [[0, 0]]).1 ∧
      c.inputBuffer.readable = (frames.receive [] [[0, 0]]).2 := by
  have hcut : ([[0, 0, 0, 1, 65, 0]] ++ [0, 0, 0] :: [[0, 0]] : List Bytes).flatten =
      [[65]].flatMap FrameCodec.encode ++ [0, 0, 0, 0] ++ [0, 0] := by rfl
  have h := bad_header_discards 5 [] [[65]] (by simp) [0, 0, 0, 0] [0, 0] rfl (.inl (by decide))
    [[0, 0, 0, 1, 65, 0]] [[0, 0]] [0, 0, 0] (by simp) hcut (by decide) (by decide)
    (admissible_of_small (accepted_live 5 []) rfl (by decide))
  exact h

theorem capacity_lt {b : Buffer} (hsize : b.buffer.length ≤ sizeBound) :
    b.capacity < 11 * 1024 * 1024 := by
  have hb : sizeBound = 10682379 := rfl
  rw [Buffer.capacity]
  omega

/-- Before a read, after it and at every turn of the loop that decodes what it
brought, the storage is below 11 MiB. No read throws, and none loses a byte. -/
theorem read_path_bounded (sockfd : Int) (peerAddr : Text) (results : List Readv)
    (had : Admissible (accepted sockfd peerAddr) results) :
    ∃ c, (serve results).run (accepted sockfd peerAddr) = .ok () c ∧
      c.inputBuffer.capacity < 11 * 1024 * 1024 ∧
      ∀ data : Bytes, data.length ≤ c.inputBuffer.offered →
        ∃ b, (Buffer.readFromFd (.bytes data)).run c.inputBuffer =
            .ok ((data.length : Int), none) b ∧
          b.readable = c.inputBuffer.readable ++ data ∧
          ∀ b', Relation.ReflTransGen Decodes b b' → b'.capacity < 11 * 1024 * 1024 := by
  obtain ⟨c, hrun, live, _⟩ := serve_live (accepted_live sockfd peerAddr) rfl had
  refine ⟨c, hrun, capacity_lt live.size_le, ?_⟩
  intro data hfit
  obtain ⟨b, hread, wf, hbytes, hsize⟩ := live.readFromFd data hfit
  refine ⟨b, hread, hbytes, ?_⟩
  intro b' hdecodes
  apply capacity_lt
  rw [(decodes_storage hdecodes wf).2]
  exact hsize

theorem read_path_bounded_after_close :
    ∃ c, (serve [.bytes [0, 0], .error .eintr, .bytes []]).run (accepted 5 []) = .ok () c ∧
      c.inputBuffer.capacity < 11 * 1024 * 1024 ∧
      ∀ data : Bytes, data.length ≤ c.inputBuffer.offered →
        ∃ b, (Buffer.readFromFd (.bytes data)).run c.inputBuffer =
            .ok ((data.length : Int), none) b ∧
          b.readable = c.inputBuffer.readable ++ data ∧
          ∀ b', Relation.ReflTransGen Decodes b b' → b'.capacity < 11 * 1024 * 1024 :=
  read_path_bounded 5 [] _ (admissible_of_small (accepted_live 5 []) rfl (by decide))

end Mprpc.ServerStream
