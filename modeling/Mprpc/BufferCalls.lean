import Mprpc.BufferView

namespace Mprpc.Buffer

open Transport Library.ByteOrder

/-- A well-formed buffer whose storage is one that a vector can have. -/
structure Sized (b : Buffer) : Prop extends b.WellFormed where
  size_le : b.buffer.length ≤ vectorMaxSize

theorem new_length (n : Nat) : (new n).buffer.length = wrap (kPrependSize + n) := by
  simp [new]

theorem construct_ok {n : Nat} {b : Buffer} (h : construct n = .ok b) :
    b = new n ∧ wrap (kPrependSize + n) ≤ vectorMaxSize := by
  unfold construct at h
  split at h
  · cases h
  · rename_i hn
    cases h
    exact ⟨rfl, Nat.le_of_not_lt hn⟩

theorem construct_sized {n : Nat} {b : Buffer} (h : construct n = .ok b)
    (hn : kPrependSize + n < 2 ^ 64) : b.Sized := by
  obtain ⟨rfl, hmax⟩ := construct_ok h
  refine ⟨new_wellFormed hn, ?_⟩
  rwa [new_length]

/-- The reserve added to one of the last sizes wraps around. -/
theorem new_wrapped {n : Nat} (hn : n < 2 ^ 64) (h : ¬ kPrependSize + n < 2 ^ 64) :
    (new n).buffer.length < kPrependSize := by
  have hk : kPrependSize = 8 := rfl
  rw [new_length]
  unfold wrap
  omega

theorem construct_wrapped {n : Nat} (hn : n < 2 ^ 64) (h : ¬ kPrependSize + n < 2 ^ 64) :
    construct n = .ok (new n) := by
  have hsize := new_wrapped hn h
  have hmax : kPrependSize < vectorMaxSize := by decide
  rw [new_length] at hsize
  exact if_neg (by omega)

/-- The sizes of the integer types that go over the wire. -/
inductive IntType
  | int8
  | int16
  | int32
  | int64
deriving DecidableEq, Repr

def IntType.size : IntType → Nat
  | .int8 => 1
  | .int16 => 2
  | .int32 => 4
  | .int64 => 8

theorem networkToHost_eq (t : IntType) {bytes : Bytes} (h : bytes.length = t.size) :
    networkToHost t.size (ofLittleEndian bytes) = ofBigEndian bytes := by
  cases t with
  | int8 =>
    obtain ⟨byte, rfl⟩ := List.length_eq_one_iff.mp h
    rfl
  | int16 | int32 | int64 =>
    have hswap := byteSwap_ofLittleEndian bytes
    rw [h] at hswap
    simpa [networkToHost, IntType.size] using hswap

theorem littleEndian_hostToNetwork (t : IntType) (value : Nat) :
    littleEndian t.size (hostToNetwork t.size value) = bigEndian t.size value := by
  cases t with
  | int8 => rfl
  | int16 => exact littleEndian_byteSwap 2 value
  | int32 => exact littleEndian_byteSwap 4 value
  | int64 => exact littleEndian_byteSwap 8 value

/-- The buffer that a call leaves, by returning or by throwing. Nothing follows
a call that reached outside the storage. -/
def leaves {α : Type} : EStateM.Result Fault Buffer α → Option Buffer
  | .ok _ b => some b
  | .error .outOfRange _ => none
  | .error _ b => some b

section Reads

variable {b : Buffer} (wf : b.WellFormed)
include wf

theorem retrieve_of_le {n : Nat} (h : b.readable.length ≤ n) : b.retrieve n = b.retrieveAll := by
  have hn : ¬ n < b.readableBytes := by
    rw [readableBytes_eq wf]
    omega
  exact if_neg hn

theorem retrieveAsVector_eq (n : Nat) :
    (retrieveAsVector n).run b = .ok (b.readable.take n) (b.retrieve n) := by
  by_cases h : n ≤ b.readable.length
  · exact retrieveAsVector_run wf h
  · have hall := retrieveAsVector_run wf (le_refl b.readable.length)
    have hbytes := readableBytes_eq wf
    have hclip : (retrieveAsVector n).run b = (retrieveAsVector b.readable.length).run b := by
      have hlt : b.readable.length < n := by omega
      simp [retrieveAsVector, hbytes, hlt]
    rw [hclip, hall, List.take_length,
      List.take_of_length_le (by omega), retrieve_of_le wf le_rfl, retrieve_of_le wf (by omega)]

theorem retrieveAsString_eq (n : Nat) :
    (retrieveAsString n).run b = .ok (b.readable.take n) (b.retrieve n) :=
  retrieveAsVector_eq wf n

theorem peekInt_eq (t : IntType) (h : t.size ≤ b.readable.length) :
    (peekInt t.size).run b = .ok (ofBigEndian (b.readable.take t.size)) b := by
  rw [peekInt_run wf h, networkToHost_eq t (List.length_take_of_le h)]

theorem peekInt_short {width : Nat} (h : b.readable.length < width) :
    ∃ what, (peekInt width).run b = .error (.runtimeError what) b := by
  rw [← readableBytes_eq wf] at h
  refine ⟨text "Buffer has insufficient data for peekInt", ?_⟩
  simp [peekInt, -bind_pure_comp, h]

theorem readInt_eq (t : IntType) (h : t.size ≤ b.readable.length) :
    (readInt t.size).run b = .ok (ofBigEndian (b.readable.take t.size)) (b.retrieve t.size) := by
  simp [readInt, -bind_pure_comp, peekInt_eq wf t h]

theorem readInt_short {width : Nat} (h : b.readable.length < width) :
    ∃ what, (readInt width).run b = .error (.runtimeError what) b := by
  obtain ⟨what, hrun⟩ := peekInt_short wf h
  exact ⟨what, by simp [readInt, -bind_pure_comp, hrun]⟩

end Reads

theorem retrieve_sized {b : Buffer} (s : b.Sized) (n : Nat) : (b.retrieve n).Sized := by
  refine ⟨retrieve_wellFormed s.toWellFormed n, ?_⟩
  rw [retrieve_buffer]
  exact s.size_le

theorem retrieveAll_sized {b : Buffer} (s : b.Sized) : b.retrieveAll.Sized :=
  ⟨retrieveAll_wellFormed s.toWellFormed, s.size_le⟩

theorem written_sized {b : Buffer} (s : b.Sized) {data : Bytes}
    (h : b.writerIndex + data.length ≤ b.buffer.length) : (b.written data).Sized := by
  refine ⟨written_wellFormed s.toWellFormed h, ?_⟩
  rw [written_length h]
  exact s.size_le

theorem MadeSpace.sized {b b' : Buffer} {len : Nat} (s : b.Sized) (h : MadeSpace b len b') :
    b'.Sized := by
  obtain ⟨wf', -, -⟩ := h.spec s.toWellFormed
  have hmax : kMaxBufferSize ≤ vectorMaxSize := by decide
  have hsize := s.size_le
  have hw := s.writer_le
  refine ⟨wf', ?_⟩
  cases h with
  | room => exact hsize
  | grown _ hlimit =>
    simp only [List.length_append, List.length_replicate]
    omega
  | compacted buffer hlen _ _ => exact hlen.trans_le hsize

/-- Making space below 2 ^ 63 finds room or throws before it changes anything. -/
theorem ensureWritableBytes_cases {b : Buffer} (s : b.Sized) {len : Nat} (hlen : len < 2 ^ 63) :
    (∃ b', (ensureWritableBytes len).run b = .ok () b' ∧ MadeSpace b len b') ∨
      kMaxBufferSize < b.writerIndex + len ∧
        ∃ what, (ensureWritableBytes len).run b = .error (.runtimeError what) b := by
  have hsize := s.size_le
  have hr := s.reader_le
  have hw := s.writer_le
  have hk : kPrependSize = 8 := rfl
  have hv : vectorMaxSize = 2 ^ 63 - 1 := rfl
  have hwr := writableBytes_eq s.toWellFormed
  by_cases hroom : len ≤ b.writableBytes
  · refine .inl ⟨b, ?_, .room (by omega)⟩
    simp [ensureWritableBytes, Nat.not_lt.mpr hroom]
  · by_cases hmax : b.buffer.length - b.writerIndex + b.readerIndex < len + kPrependSize →
        b.writerIndex + len ≤ kMaxBufferSize
    · exact .inl (ensureWritableBytes_run s.toWellFormed (by omega) (by omega) hmax)
    · obtain ⟨hgrow, hlimit⟩ := Classical.not_imp.mp hmax
      have hlimit' : kMaxBufferSize < b.writerIndex + len := Nat.lt_of_not_le hlimit
      refine .inr ⟨hlimit', text "Buffer size exceeds maximum limit", ?_⟩
      have hsum := space_eq s.toWellFormed
      have hneed : wrap (len + kPrependSize) = len + kPrependSize := wrap_of_lt (by omega)
      have hnew : wrap (b.writerIndex + len) = b.writerIndex + len := wrap_of_lt (by omega)
      rw [ensureWritableBytes_full hroom]
      simp [makeSpace, hsum, hneed, hgrow, hnew, hlimit']

theorem append_cases {b : Buffer} (s : b.Sized) {data : Bytes} (hlen : data.length < 2 ^ 63) :
    (∃ b', (append data).run b = .ok () b' ∧ b'.Sized ∧ b'.readable = b.readable ++ data) ∨
      kMaxBufferSize < b.writerIndex + data.length ∧
        ∃ what, (append data).run b = .error (.runtimeError what) b := by
  cases ensureWritableBytes_cases s hlen with
  | inl h =>
    obtain ⟨b₁, hrun, hspace⟩ := h
    obtain ⟨wf₁, hread₁, hroom₁⟩ := hspace.spec s.toWellFormed
    refine .inl ⟨b₁.written data, append_of_space wf₁ hrun hroom₁,
      written_sized (hspace.sized s) hroom₁, ?_⟩
    rw [written_readable wf₁, hread₁]
  | inr h =>
    obtain ⟨hlimit, what, hrun⟩ := h
    exact .inr ⟨hlimit, what, by simp only [append, EStateM.run_bind, hrun]⟩

/-- The buffer with bytes written in front of the live ones. -/
def prepended (b : Buffer) (data : Bytes) : Buffer :=
  ⟨b.buffer.take (b.readerIndex - data.length) ++ data ++ b.buffer.drop b.readerIndex,
    b.readerIndex - data.length, b.writerIndex⟩

section Prepend

variable {b : Buffer} {data : Bytes}

theorem prepended_length (s : b.Sized) (h : data.length ≤ b.readerIndex) :
    (b.prepended data).buffer.length = b.buffer.length := by
  have hr := s.reader_le
  have hw := s.writer_le
  simp only [prepended, List.length_append, List.length_take, List.length_drop]
  omega

theorem prepended_sized (s : b.Sized) (h : data.length ≤ b.readerIndex) :
    (b.prepended data).Sized := by
  have hlen := prepended_length s h
  have hr := s.reader_le
  refine ⟨⟨?_, ?_, ?_, ?_⟩, ?_⟩
  · dsimp only [prepended]
    omega
  · rw [hlen]
    exact s.writer_le
  · rw [hlen]
    exact s.prepend_le
  · rw [hlen]
    exact s.size_lt
  · rw [hlen]
    exact s.size_le

theorem prepended_readable (s : b.Sized) (h : data.length ≤ b.readerIndex) :
    (b.prepended data).readable = data ++ b.readable := by
  have hr := s.reader_le
  have hw := s.writer_le
  have hfront : (b.buffer.take (b.readerIndex - data.length)).length =
      b.readerIndex - data.length := by
    simp only [List.length_take]
    omega
  have hhead : (b.buffer.take (b.readerIndex - data.length) ++ data).length = b.readerIndex := by
    rw [List.length_append, hfront]
    omega
  simp only [readable, prepended]
  rw [List.drop_take, List.append_assoc, List.drop_append_of_le_length hfront.ge,
    List.drop_of_length_le hfront.le, List.nil_append, List.drop_take, List.take_append,
    List.take_of_length_le (by omega)]
  congr 2
  omega

theorem prepend_run (s : b.Sized) (h : data.length ≤ b.readerIndex) :
    (prepend data).run b = .ok () (b.prepended data) := by
  have hr := s.reader_le
  have hw := s.writer_le
  have hs := s.size_lt
  have hn : ¬ b.readerIndex < data.length := Nat.not_lt.mpr h
  have hsub : wrapSub b.readerIndex data.length = b.readerIndex - data.length :=
    wrapSub_of_le h (by omega)
  have hfit : b.readerIndex - data.length + data.length ≤
      ({ b with readerIndex := b.readerIndex - data.length } : Buffer).buffer.length := by
    dsimp only
    omega
  have hstore := store_run _ _ hfit
  have hend : b.readerIndex - data.length + data.length = b.readerIndex := by omega
  simp [prepend, prependableBytes, hn, hsub, hstore, prepended, hend]

theorem prepend_full (h : b.readerIndex < data.length) :
    ∃ what, (prepend data).run b = .error (.runtimeError what) b := by
  refine ⟨text "Not enough prepend space", ?_⟩
  simp [prepend, prependableBytes, h]

end Prepend

end Mprpc.Buffer
