import Mprpc.Buffer

namespace Mprpc.Buffer

open Transport Library.ByteOrder

/-- The bytes between the two indices: what a reader of the buffer sees. -/
def readable (b : Buffer) : Bytes := (b.buffer.take b.writerIndex).drop b.readerIndex

structure WellFormed (b : Buffer) : Prop where
  reader_le : b.readerIndex ≤ b.writerIndex
  writer_le : b.writerIndex ≤ b.buffer.length
  prepend_le : kPrependSize ≤ b.buffer.length
  size_lt : b.buffer.length < 2 ^ 64

theorem new_wellFormed {n : Nat} (h : kPrependSize + n < 2 ^ 64) : (new n).WellFormed := by
  have hs : (new n).buffer.length = kPrependSize + n := by simp [new, wrap_of_lt h]
  refine ⟨le_rfl, ?_, ?_, ?_⟩
  · rw [hs]
    exact Nat.le_add_right _ _
  · rw [hs]
    exact Nat.le_add_right _ _
  · rwa [hs]

theorem new_readable (n : Nat) : (new n).readable = [] := by
  simp [readable, new]

section Indices

variable {b : Buffer} (wf : b.WellFormed)
include wf

theorem readable_length : b.readable.length = b.writerIndex - b.readerIndex := by
  have hw := wf.writer_le
  simp [readable, Nat.min_eq_left hw]

theorem readableBytes_eq : b.readableBytes = b.readable.length := by
  have hw := wf.writer_le
  have hs := wf.size_lt
  rw [readable_length wf, readableBytes, wrapSub_of_le wf.reader_le (by omega)]

theorem writableBytes_eq : b.writableBytes = b.buffer.length - b.writerIndex :=
  wrapSub_of_le wf.writer_le wf.size_lt

theorem space_eq : wrap (b.writableBytes + b.prependableBytes) =
    b.buffer.length - b.writerIndex + b.readerIndex := by
  have hr := wf.reader_le
  have hw := wf.writer_le
  have hs := wf.size_lt
  rw [writableBytes_eq wf, prependableBytes, wrap_of_lt (by omega)]

theorem live_eq : (b.buffer.drop b.readerIndex).take b.readable.length = b.readable := by
  rw [readable_length wf, readable, List.drop_take]

theorem readable_take (n : Nat) (hn : n ≤ b.readable.length) :
    (b.buffer.drop b.readerIndex).take n = b.readable.take n := by
  conv_rhs => rw [← live_eq wf]
  rw [List.take_take, Nat.min_eq_left hn]

end Indices

section Access

variable (b : Buffer) (off len : Nat)

theorem checkRange_run (h : off + len ≤ b.buffer.length) :
    (checkRange off len).run b = .ok () b := by
  have hn : ¬ b.buffer.length < off + len := by omega
  simp [checkRange, hn]

theorem load_run (h : off + len ≤ b.buffer.length) :
    (load off len).run b = .ok ((b.buffer.drop off).take len) b := by
  simp [load, -bind_pure_comp, checkRange_run b off len h]

theorem store_run {data : Bytes} (h : off + data.length ≤ b.buffer.length) :
    (store off data).run b = .ok ()
      { b with buffer := b.buffer.take off ++ data ++ b.buffer.drop (off + data.length) } := by
  simp [store, checkRange_run b off data.length h]

theorem store_outside {data : Bytes} (h : b.buffer.length < off + data.length) :
    (store off data).run b = .error .outOfRange b := by
  simp only [store, checkRange, EStateM.run_bind, EStateM.run_get, if_pos h]
  rfl

end Access

theorem retrieveAll_wellFormed {b : Buffer} (wf : b.WellFormed) : b.retrieveAll.WellFormed :=
  ⟨le_rfl, wf.prepend_le, wf.prepend_le, wf.size_lt⟩

theorem retrieveAll_readable (b : Buffer) : b.retrieveAll.readable = [] := by
  simp [retrieveAll, readable]

theorem retrieve_wellFormed {b : Buffer} (wf : b.WellFormed) (n : Nat) :
    (b.retrieve n).WellFormed := by
  have hlen := readable_length wf
  obtain ⟨hr, hw, hp, hs⟩ := wf
  unfold retrieve
  split
  · rename_i hn
    rw [readableBytes_eq ⟨hr, hw, hp, hs⟩] at hn
    have hwrap : wrap (b.readerIndex + n) = b.readerIndex + n := wrap_of_lt (by omega)
    exact ⟨by rw [hwrap]; dsimp only; omega, hw, hp, hs⟩
  · exact retrieveAll_wellFormed ⟨hr, hw, hp, hs⟩

theorem retrieve_readable {b : Buffer} (wf : b.WellFormed) (n : Nat) :
    (b.retrieve n).readable = b.readable.drop n := by
  have hlen := readable_length wf
  have hw := wf.writer_le
  have hs := wf.size_lt
  have hb := readableBytes_eq wf
  unfold retrieve
  split
  · rw [readable, wrap_of_lt (by omega), readable, List.drop_drop]
  · rw [retrieveAll_readable, List.drop_eq_nil_of_le (by omega)]

theorem retrieve_buffer (b : Buffer) (n : Nat) : (b.retrieve n).buffer = b.buffer := by
  unfold retrieve
  split <;> rfl

theorem peekInt_run {b : Buffer} (wf : b.WellFormed) {width : Nat}
    (h : width ≤ b.readable.length) :
    (peekInt width).run b =
      .ok (networkToHost width (ofLittleEndian (b.readable.take width))) b := by
  have hlen := readable_length wf
  have hr := wf.reader_le
  have hw := wf.writer_le
  have hn : ¬ b.readableBytes < width := by
    rw [readableBytes_eq wf]
    omega
  have hl := load_run b b.readerIndex width (by omega)
  rw [readable_take wf width h] at hl
  simp [peekInt, -bind_pure_comp, hn, hl]

theorem retrieveAsVector_run {b : Buffer} (wf : b.WellFormed) {n : Nat}
    (h : n ≤ b.readable.length) :
    (retrieveAsVector n).run b = .ok (b.readable.take n) (b.retrieve n) := by
  have hlen := readable_length wf
  have hr := wf.reader_le
  have hw := wf.writer_le
  have hn : ¬ b.readableBytes < n := by
    rw [readableBytes_eq wf]
    omega
  have hl := load_run b b.readerIndex n (by omega)
  rw [readable_take wf n h] at hl
  simp [retrieveAsVector, -bind_pure_comp, hn, hl]

/-- The buffer with bytes written behind the live ones. -/
def written (b : Buffer) (data : Bytes) : Buffer :=
  ⟨b.buffer.take b.writerIndex ++ data ++ b.buffer.drop (b.writerIndex + data.length),
    b.readerIndex, b.writerIndex + data.length⟩

theorem written_length {b : Buffer} {data : Bytes}
    (h : b.writerIndex + data.length ≤ b.buffer.length) :
    (b.written data).buffer.length = b.buffer.length := by
  simp only [written, List.length_append, List.length_take, List.length_drop]
  omega

theorem written_wellFormed {b : Buffer} (wf : b.WellFormed) {data : Bytes}
    (h : b.writerIndex + data.length ≤ b.buffer.length) : (b.written data).WellFormed := by
  have hsize := written_length h
  obtain ⟨hr, hw, hp, hs⟩ := wf
  refine ⟨?_, ?_, ?_, ?_⟩
  · dsimp only [written]
    omega
  · rw [hsize]
    exact h
  · rwa [hsize]
  · rwa [hsize]

theorem written_readable {b : Buffer} (wf : b.WellFormed) (data : Bytes) :
    (b.written data).readable = b.readable ++ data := by
  have hr := wf.reader_le
  have hw := wf.writer_le
  have hfront : (b.buffer.take b.writerIndex ++ data).length = b.writerIndex + data.length := by
    simp [Nat.min_eq_left hw]
  have hback : b.readerIndex ≤ (b.buffer.take b.writerIndex).length := by
    simp only [List.length_take]
    omega
  dsimp only [readable, written]
  rw [← hfront, List.take_left, List.drop_append_of_le_length hback]

theorem store_written {b : Buffer} {data : Bytes}
    (h : b.writerIndex + data.length ≤ b.buffer.length) :
    (store b.writerIndex data).run b =
      .ok () { b.written data with writerIndex := b.writerIndex } :=
  store_run b b.writerIndex h

/-- The ways `ensureWritableBytes` can succeed: there is room already, the
storage grows behind the writer, or the live bytes move to the front. -/
inductive MadeSpace (b : Buffer) (len : Nat) : Buffer → Prop
  | room : len ≤ b.buffer.length - b.writerIndex → MadeSpace b len b
  | grown : b.buffer.length - b.writerIndex + b.readerIndex < len + kPrependSize →
      b.writerIndex + len ≤ kMaxBufferSize →
      MadeSpace b len ⟨b.buffer ++ List.replicate (b.writerIndex + len - b.buffer.length) 0,
        b.readerIndex, b.writerIndex⟩
  | compacted (buffer : Bytes) : buffer.length = b.buffer.length →
      (buffer.drop kPrependSize).take b.readable.length = b.readable →
      kPrependSize + b.readable.length + len ≤ b.buffer.length →
      MadeSpace b len ⟨buffer, kPrependSize, kPrependSize + b.readable.length⟩

theorem compact_run {b : Buffer} (wf : b.WellFormed)
    (h : kPrependSize + b.readable.length ≤ b.buffer.length) :
    ∃ buffer : Bytes, buffer.length = b.buffer.length ∧
      (buffer.drop kPrependSize).take b.readable.length = b.readable ∧
      (memmove kPrependSize b.readerIndex b.readableBytes).run b =
        .ok () { b with buffer := buffer } := by
  have hlen := readable_length wf
  have hw := wf.writer_le
  refine ⟨b.buffer.take kPrependSize ++ b.readable ++
    b.buffer.drop (kPrependSize + b.readable.length), ?_, ?_, ?_⟩
  · simp only [List.length_append, List.length_take, List.length_drop]
    omega
  · have hk : (b.buffer.take kPrependSize).length = kPrependSize := by
      simp only [List.length_take]
      omega
    rw [List.append_assoc, List.drop_append_of_le_length (by rw [hk]),
      List.drop_of_length_le (by rw [hk]), List.nil_append, List.take_left]
  · rw [readableBytes_eq wf]
    have hr := wf.reader_le
    have hl := load_run b b.readerIndex b.readable.length (by omega)
    rw [live_eq wf] at hl
    simp [memmove, hl, store_run b kPrependSize h]

theorem ensureWritableBytes_full {b : Buffer} {len : Nat} (h : ¬ len ≤ b.writableBytes) :
    (ensureWritableBytes len).run b = (makeSpace len).run b := by
  simp [ensureWritableBytes, Nat.lt_of_not_le h]

theorem ensureWritableBytes_run {b : Buffer} (wf : b.WellFormed) {len : Nat}
    (hlen : len + kPrependSize < 2 ^ 64) (hend : b.writerIndex + len < 2 ^ 64)
    (hmax : b.buffer.length - b.writerIndex + b.readerIndex < len + kPrependSize →
      b.writerIndex + len ≤ kMaxBufferSize) :
    ∃ b', (ensureWritableBytes len).run b = .ok () b' ∧ MadeSpace b len b' := by
  have hread := readable_length wf
  have hr := wf.reader_le
  have hw := wf.writer_le
  have hs := wf.size_lt
  by_cases hroom : b.writableBytes < len
  · have hwr := writableBytes_eq wf
    have hsum := space_eq wf
    have hneed : wrap (len + kPrependSize) = len + kPrependSize := wrap_of_lt (by omega)
    have hnew : wrap (b.writerIndex + len) = b.writerIndex + len := wrap_of_lt (by omega)
    by_cases hgrow : b.buffer.length - b.writerIndex + b.readerIndex < len + kPrependSize
    · have hfit : ¬ kMaxBufferSize < b.writerIndex + len := by
        have h := hmax hgrow
        omega
      have hvector : ¬ vectorMaxSize < b.writerIndex + len := by
        have h := hmax hgrow
        have hk : kMaxBufferSize ≤ vectorMaxSize := by decide
        omega
      have htake : b.buffer.take (b.writerIndex + len) = b.buffer :=
        List.take_of_length_le (by omega)
      refine ⟨_, ?_, .grown hgrow (hmax hgrow)⟩
      simp [ensureWritableBytes, hroom, makeSpace, hsum, hneed, hgrow, hnew, hfit, resize, hvector,
        htake]
    · have hfit : kPrependSize + b.readable.length + len ≤ b.buffer.length := by
        rw [hread]
        omega
      obtain ⟨buffer, hsize, hlive, hmove⟩ := compact_run wf (by omega)
      have hwriter : wrap (kPrependSize + b.readable.length) = kPrependSize + b.readable.length :=
        wrap_of_lt (by omega)
      have hbytes := readableBytes_eq wf
      refine ⟨_, ?_, .compacted buffer hsize hlive hfit⟩
      rw [hbytes] at hmove
      simp [ensureWritableBytes, hroom, makeSpace, hsum, hneed, hgrow, hbytes, hmove, hwriter]
  · refine ⟨b, by simp [ensureWritableBytes, hroom], .room ?_⟩
    have hwr := writableBytes_eq wf
    omega

/-- Making space changes neither the live bytes nor the well-formedness, and
leaves room for what was asked. -/
theorem MadeSpace.spec {b b' : Buffer} {len : Nat} (wf : b.WellFormed)
    (h : MadeSpace b len b') :
    b'.WellFormed ∧ b'.readable = b.readable ∧ b'.writerIndex + len ≤ b'.buffer.length := by
  have hread := readable_length wf
  have hmax : kMaxBufferSize < 2 ^ 64 := by decide
  obtain ⟨hr, hw, hp, hs⟩ := wf
  cases h with
  | room h => exact ⟨⟨hr, hw, hp, hs⟩, rfl, by omega⟩
  | grown hg hm =>
    refine ⟨⟨hr, ?_, ?_, ?_⟩, ?_, ?_⟩
    · simp only [List.length_append]
      omega
    · simp only [List.length_append]
      omega
    · simp only [List.length_append, List.length_replicate]
      omega
    · simp only [readable, List.take_append_of_le_length hw]
    · simp only [List.length_append, List.length_replicate]
      omega
  | compacted buffer hsize hlive hfit =>
    refine ⟨⟨Nat.le_add_right _ _, ?_, ?_, ?_⟩, ?_, ?_⟩
    · dsimp only
      omega
    · dsimp only
      omega
    · dsimp only
      omega
    · rw [readable, List.drop_take, Nat.add_sub_cancel_left]
      exact hlive
    · dsimp only
      omega

theorem MadeSpace.size {b b' : Buffer} {len : Nat} (h : MadeSpace b len b') :
    b'.buffer.length = b.buffer.length ∨
      b.buffer.length - b.writerIndex + b.readerIndex < len + kPrependSize ∧
        b'.buffer.length = max b.buffer.length (b.writerIndex + len) := by
  cases h with
  | room h => exact .inl rfl
  | grown hg hm =>
    refine .inr ⟨hg, ?_⟩
    simp only [List.length_append, List.length_replicate]
    omega
  | compacted buffer hsize hlive hfit => exact .inl hsize

theorem append_of_space {b b₁ : Buffer} {data : Bytes} (wf₁ : b₁.WellFormed)
    (hrun : (ensureWritableBytes data.length).run b = .ok () b₁)
    (hroom₁ : b₁.writerIndex + data.length ≤ b₁.buffer.length) :
    (append data).run b = .ok () (b₁.written data) := by
  have hwrap : wrap (b₁.writerIndex + data.length) = b₁.writerIndex + data.length :=
    wrap_of_lt (lt_of_le_of_lt hroom₁ wf₁.size_lt)
  simp only [append, hasWritten, EStateM.run_bind, EStateM.run_get, EStateM.run_modify, hrun,
    store_written hroom₁, hwrap, written]

/-- `append` adds at the end, as long as making space does not have to grow the
storage past its limit. -/
theorem append_run {b : Buffer} (wf : b.WellFormed) (data : Bytes)
    (hlen : data.length + kPrependSize + b.buffer.length < 2 ^ 64)
    (hmax : b.buffer.length - b.writerIndex + b.readerIndex < data.length + kPrependSize →
      b.writerIndex + data.length ≤ kMaxBufferSize) :
    ∃ b', (append data).run b = .ok () b' ∧ b'.WellFormed ∧
      b'.readable = b.readable ++ data ∧
      (b'.buffer.length = b.buffer.length ∨
        b.buffer.length - b.writerIndex + b.readerIndex < data.length + kPrependSize ∧
          b'.buffer.length = max b.buffer.length (b.writerIndex + data.length)) := by
  have hw := wf.writer_le
  obtain ⟨b₁, hrun, hspace⟩ := ensureWritableBytes_run wf (by omega) (by omega) hmax
  obtain ⟨wf₁, hread₁, hroom₁⟩ := hspace.spec wf
  refine ⟨b₁.written data, append_of_space wf₁ hrun hroom₁, written_wellFormed wf₁ hroom₁, ?_, ?_⟩
  · rw [written_readable wf₁, hread₁]
  · rw [written_length hroom₁]
    exact hspace.size

theorem checkWritable_run {b : Buffer} (wf : b.WellFormed) :
    (checkRange b.writerIndex b.writableBytes).run b = .ok () b := by
  have hw := wf.writer_le
  apply checkRange_run
  rw [writableBytes_eq wf]
  omega

theorem readFromFd_error {b : Buffer} (wf : b.WellFormed) (errno : Errno) :
    (readFromFd (.error errno)).run b = .ok (-1, some errno) b := by
  simp only [readFromFd, EStateM.run_bind, EStateM.run_get, EStateM.run_pure, checkWritable_run wf]

theorem readFromFd_fits {b : Buffer} (wf : b.WellFormed) {data : Bytes}
    (hfit : data.length ≤ b.writableBytes) :
    b.writerIndex + data.length ≤ b.buffer.length ∧
      (readFromFd (.bytes data)).run b = .ok ((data.length : Int), none) (b.written data) := by
  have hw := wf.writer_le
  have hfill : b.writerIndex + data.length ≤ b.buffer.length := by
    rw [writableBytes_eq wf] at hfit
    omega
  have htake : data.take b.writableBytes = data := List.take_of_length_le hfit
  have hwrap : wrap (b.writerIndex + data.length) = b.writerIndex + data.length :=
    wrap_of_lt (lt_of_le_of_lt hfill wf.size_lt)
  refine ⟨hfill, ?_⟩
  simp only [readFromFd, hasWritten, EStateM.run_bind, EStateM.run_get, EStateM.run_pure,
    EStateM.run_modify, checkWritable_run wf, htake, store_written hfill, if_pos hfit, hwrap,
    written]

theorem readFromFd_spills {b : Buffer} (wf : b.WellFormed) {data : Bytes}
    (hspill : ¬ data.length ≤ b.writableBytes) :
    ∃ full : Buffer, full.WellFormed ∧ full.writerIndex = b.buffer.length ∧
      full.readerIndex = b.readerIndex ∧ full.buffer.length = b.buffer.length ∧
      full.readable = b.readable ++ data.take b.writableBytes ∧
      (readFromFd (.bytes data)).run b =
        (append (data.drop b.writableBytes) >>= fun _ =>
          pure ((data.length : Int), none)).run full := by
  have hw := wf.writer_le
  have hwr := writableBytes_eq wf
  have hlen : (data.take b.writableBytes).length = b.writableBytes := by
    rw [List.length_take]
    omega
  have hfill : b.writerIndex + (data.take b.writableBytes).length ≤ b.buffer.length := by omega
  have hfull : (b.written (data.take b.writableBytes)).writerIndex = b.buffer.length := by
    dsimp only [written]
    omega
  have hsize := written_length hfill
  have hstate : ({ b.written (data.take b.writableBytes) with
      writerIndex := (b.written (data.take b.writableBytes)).buffer.length } : Buffer) =
      b.written (data.take b.writableBytes) := by
    rw [hsize, ← hfull]
  refine ⟨b.written (data.take b.writableBytes), written_wellFormed wf hfill, hfull, rfl, hsize,
    written_readable wf _, ?_⟩
  simp only [readFromFd, EStateM.run_bind, EStateM.run_get, EStateM.run_pure,
    EStateM.run_modify, checkWritable_run wf, store_written hfill, if_neg hspill, hstate]

/-- One `readv` of at most the bytes on offer ends up behind the live bytes.
The storage grows only while the space in front of them is smaller than the
stack array, so the live bytes bound how far it grows. -/
theorem readFromFd_bytes {b : Buffer} (wf : b.WellFormed) (hsize : b.buffer.length < 2 ^ 63)
    (hlive : b.readable.length + 3 * extraBufSize + kPrependSize ≤ kMaxBufferSize)
    {data : Bytes} (h : data.length ≤ b.offered) :
    ∃ b', (readFromFd (.bytes data)).run b = .ok ((data.length : Int), none) b' ∧
      b'.WellFormed ∧ b'.readable = b.readable ++ data ∧
      b'.buffer.length ≤
        max b.buffer.length (b.readable.length + 3 * extraBufSize + kPrependSize) := by
  by_cases hfit : data.length ≤ b.writableBytes
  · obtain ⟨hfill, hrun⟩ := readFromFd_fits wf hfit
    refine ⟨b.written data, hrun, written_wellFormed wf hfill, written_readable wf data, ?_⟩
    rw [written_length hfill]
    exact le_max_left _ _
  · have hoffer : data.length ≤ b.writableBytes + extraBufSize ∧
        b.writableBytes < extraBufSize := by
      unfold offered at h
      split at h
      · exact ⟨h, by assumption⟩
      · exact absurd h hfit
    obtain ⟨full, wf₁, hwriter, hreader, hsize₁, hread₁, hread⟩ := readFromFd_spills wf hfit
    have hlen := readable_length wf
    have hwr := writableBytes_eq wf
    have hr := wf.reader_le
    have hw := wf.writer_le
    have hdrop : (data.drop b.writableBytes).length = data.length - b.writableBytes :=
      List.length_drop
    have hk : kPrependSize = 8 := rfl
    have he : extraBufSize = 65536 := rfl
    obtain ⟨b', hrun, wf', hread', hsize'⟩ := append_run wf₁ (data.drop b.writableBytes)
      (by omega) (by omega)
    have hread₂ : (readFromFd (.bytes data)).run b = .ok ((data.length : Int), none) b' := by
      rw [hread, EStateM.run_bind, hrun]
      rfl
    refine ⟨b', hread₂, wf', ?_, ?_⟩
    · rw [hread', hread₁, List.append_assoc, List.take_append_drop]
    · omega

end Mprpc.Buffer
