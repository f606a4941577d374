import Mprpc.BufferSafety

namespace Mprpc.BufferLimit

open Transport Buffer BufferSafety Library.Transition

/-- A byte array whose length a `size_t` holds. -/
abbrev Data := { data : Bytes // data.length < 2 ^ 64 }

inductive Call
  | append (data : Data)
  | retrieve (len : UInt64)
  | retrieveAll

def Call.exec : Call → Buffer.Action Unit
  | .append data => Buffer.append data.val
  | .retrieve len => modify (·.retrieve len.toNat)
  | .retrieveAll => modify Buffer.retrieveAll

def next (b : Buffer) (call : Call) : Option Buffer := leaves (call.exec.run b)

/-- What is asked of `append`: it throws only when the live bytes and the new ones are too
many, and changes nothing then, and else stores the bytes. -/
def LimitsLive (b : Buffer) (data : Bytes) : Prop :=
  match (Buffer.append data).run b with
  | .ok _ b' => b'.readable = b.readable ++ data
  | .error .outOfRange _ => False
  | .error _ b' => b' = b ∧ kMaxBufferSize < kPrependSize + b.readableBytes + data.length

/-- The writer's position stays below the limit, or the storage has room for the bytes once
the live ones are at its front, or the live bytes are too many anyway. -/
def Reclaims (b : Buffer) (len : Nat) : Prop :=
  b.writerIndex + len < 2 ^ 64 ∧
    (b.writerIndex + len ≤ kMaxBufferSize ∨ kPrependSize + b.readableBytes + len ≤ b.capacity ∨
      kMaxBufferSize < kPrependSize + b.readableBytes + len)

/-- A buffer that nothing is written in front of, and that was made below the limit. -/
structure Limited (b : Buffer) : Prop extends b.Sized where
  reader_ge : kPrependSize ≤ b.readerIndex
  capacity_le : b.buffer.length ≤ kMaxBufferSize

theorem new_limited : Limited (new kInitialSize) := by
  refine ⟨construct_sized (n := kInitialSize) rfl (by decide), le_rfl, ?_⟩
  rw [new_length]
  decide

section Appends

variable {b b' : Buffer} (limited : Limited b)
include limited

theorem retrieve_limited (n : Nat) : Limited (b.retrieve n) := by
  have hbytes := readableBytes_eq limited.toWellFormed
  have hread := readable_length limited.toWellFormed
  have hw := limited.writer_le
  have hs := limited.size_lt
  refine ⟨retrieve_sized limited.toSized n, ?_, ?_⟩
  · have hr := limited.reader_ge
    unfold retrieve
    split
    · rw [wrap_of_lt (by omega)]
      dsimp only
      omega
    · exact le_rfl
  · rw [retrieve_buffer]
    exact limited.capacity_le

theorem madeSpace_limited {len : Nat} (hspace : MadeSpace b len b') : Limited b' := by
  have hcap := limited.capacity_le
  refine ⟨hspace.sized limited.toSized, ?_, ?_⟩
  · cases hspace with
    | room => exact limited.reader_ge
    | grown => exact limited.reader_ge
    | compacted => exact le_rfl
  · cases hspace with
    | room => exact hcap
    | grown _ hlimit =>
      simp only [List.length_append, List.length_replicate]
      omega
    | compacted buffer hlen _ _ => exact hlen.trans_le hcap

theorem written_limited {data : Bytes} (h : b.writerIndex + data.length ≤ b.buffer.length) :
    Limited (b.written data) := by
  refine ⟨written_sized limited.toSized h, limited.reader_ge, ?_⟩
  rw [written_length h]
  exact limited.capacity_le

theorem append_fits {data : Bytes} (h : b.writerIndex + data.length ≤ kMaxBufferSize ∨
    kPrependSize + b.readable.length + data.length ≤ b.buffer.length) :
    ∃ b', (Buffer.append data).run b = .ok () b' ∧ Limited b' ∧
      b'.readable = b.readable ++ data := by
  have hread := readable_length limited.toWellFormed
  have hr := limited.reader_le
  have hw := limited.writer_le
  have hcap := limited.capacity_le
  have hm : kMaxBufferSize < 2 ^ 62 := by decide
  have hk : kPrependSize = 8 := rfl
  obtain ⟨b₁, hrun, hspace⟩ := @ensureWritableBytes_run b
    limited.toWellFormed data.length (by omega) (by omega) (by omega)
  obtain ⟨wf₁, hread₁, hroom₁⟩ := hspace.spec limited.toWellFormed
  have limited₁ := madeSpace_limited limited hspace
  refine ⟨b₁.written data, append_of_space wf₁ hrun hroom₁, written_limited limited₁ hroom₁, ?_⟩
  rw [written_readable wf₁, hread₁]

theorem full_of_limit {len : Nat} (h : kMaxBufferSize < b.writerIndex + len) :
    ¬len ≤ b.writableBytes := by
  have hw := limited.writer_le
  have hcap := limited.capacity_le
  rw [writableBytes_eq limited.toWellFormed]
  omega

theorem append_throws {data : Bytes} (hend : b.writerIndex + data.length < 2 ^ 64)
    (hlimit : kMaxBufferSize < b.writerIndex + data.length)
    (hspace : b.buffer.length < kPrependSize + b.readable.length + data.length) :
    ∃ what, (Buffer.append data).run b = .error (.runtimeError what) b := by
  have hread := readable_length limited.toWellFormed
  have hr := limited.reader_ge
  have hr' := limited.reader_le
  have hw := limited.writer_le
  have hk : kPrependSize = 8 := rfl
  have hneed : wrap (data.length + kPrependSize) = data.length + kPrependSize :=
    wrap_of_lt (by omega)
  have hgrow : wrap (b.writableBytes + b.prependableBytes) < wrap (data.length + kPrependSize) := by
    rw [space_eq limited.toWellFormed, hneed]
    omega
  have hover : kMaxBufferSize < wrap (b.writerIndex + data.length) := by rwa [wrap_of_lt hend]
  have hrun := makeSpace_grows hgrow
  rw [if_pos hover, ← ensureWritableBytes_full (full_of_limit limited hlimit)] at hrun
  refine ⟨text "Buffer size exceeds maximum limit", ?_⟩
  simp only [Buffer.append, EStateM.run_bind, hrun]

theorem append_overruns {data : Bytes} (hlen : data.length < 2 ^ 64)
    (hend : 2 ^ 64 ≤ b.writerIndex + data.length) :
    ∃ b', (Buffer.append data).run b = .error .outOfRange b' := by
  have hread := readable_length limited.toWellFormed
  have hr := limited.reader_ge
  have hr' := limited.reader_le
  have hw := limited.writer_le
  have hcap := limited.capacity_le
  have hm : kMaxBufferSize < 2 ^ 62 := by decide
  have hmake := ensureWritableBytes_full (full_of_limit limited (by omega : kMaxBufferSize <
    b.writerIndex + data.length))
  obtain ⟨b₁, hrun, hsize⟩ : ∃ b₁, (Buffer.ensureWritableBytes data.length).run b = .ok () b₁ ∧
      b₁.buffer.length ≤ kMaxBufferSize := by
    by_cases hgrow : wrap (b.writableBytes + b.prependableBytes) < wrap (data.length + kPrependSize)
    · have hnew : ¬kMaxBufferSize < wrap (b.writerIndex + data.length) := by
        unfold wrap
        omega
      refine ⟨_, by rw [hmake, makeSpace_grows hgrow, if_neg hnew], ?_⟩
      rw [resized_length]
      omega
    · obtain ⟨c, hcompact, -, hlength, -⟩ := compact_fits limited.toSized (by omega)
      exact ⟨c, by rw [hmake, makeSpace_moves hgrow, hcompact], hlength.trans_le hcap⟩
  refine ⟨b₁, ?_⟩
  have hstore := @store_outside b₁ b₁.writerIndex data (by omega)
  simp only [Buffer.append, EStateM.run_bind, EStateM.run_get, hrun, hstore]

end Appends

/-- An `append` finds space, or throws, or has let a sum wrap around and writes past the end. -/
inductive Outcome (b : Buffer) (data : Bytes) : Prop
  | stores {b' : Buffer} (hfits : b.writerIndex + data.length ≤ kMaxBufferSize ∨
      kPrependSize + b.readable.length + data.length ≤ b.buffer.length)
      (hrun : (Buffer.append data).run b = .ok () b') (limited : Limited b')
      (hread : b'.readable = b.readable ++ data) : Outcome b data
  | throws {what : Text} (hlimit : kMaxBufferSize < b.writerIndex + data.length)
      (hspace : b.buffer.length < kPrependSize + b.readable.length + data.length)
      (hend : b.writerIndex + data.length < 2 ^ 64)
      (hrun : (Buffer.append data).run b = .error (.runtimeError what) b) : Outcome b data
  | overruns {b' : Buffer} (hend : 2 ^ 64 ≤ b.writerIndex + data.length)
      (hrun : (Buffer.append data).run b = .error .outOfRange b') : Outcome b data

section Outcomes

variable {b b' : Buffer} (limited : Limited b)
include limited

theorem append_outcome {data : Bytes} (hlen : data.length < 2 ^ 64) : Outcome b data := by
  by_cases hfits : b.writerIndex + data.length ≤ kMaxBufferSize ∨
      kPrependSize + b.readable.length + data.length ≤ b.buffer.length
  · obtain ⟨b', hrun, limited', hread⟩ := append_fits limited hfits
    exact .stores hfits hrun limited' hread
  obtain ⟨hlimit, hspace⟩ := not_or.mp hfits
  by_cases hend : b.writerIndex + data.length < 2 ^ 64
  · obtain ⟨what, hrun⟩ := append_throws limited hend (Nat.lt_of_not_le hlimit)
      (Nat.lt_of_not_le hspace)
    exact .throws (Nat.lt_of_not_le hlimit) (Nat.lt_of_not_le hspace) hend hrun
  · obtain ⟨b', hrun⟩ := append_overruns limited hlen (Nat.le_of_not_lt hend)
    exact .overruns (Nat.le_of_not_lt hend) hrun

theorem limitsLive_iff {data : Bytes} (hlen : data.length < 2 ^ 64) :
    LimitsLive b data ↔ Reclaims b data.length := by
  have hcap := limited.capacity_le
  have hm : kMaxBufferSize < 2 ^ 62 := by decide
  have hread := readable_length limited.toWellFormed
  have hr := limited.reader_ge
  have hw := limited.writer_le
  unfold LimitsLive Reclaims
  rw [readableBytes_eq limited.toWellFormed, capacity]
  cases append_outcome limited hlen with
  | stores hfits hrun _ hstored =>
    rw [hrun]
    exact iff_of_true hstored ⟨by omega, or_assoc.mp (.inl hfits)⟩
  | throws hlimit hspace hend hrun =>
    rw [hrun]
    constructor
    · exact fun h => ⟨hend, .inr (.inr h.2)⟩
    · exact fun h => ⟨rfl, (h.2.resolve_left (Nat.not_le.mpr hlimit)).resolve_left
        (Nat.not_le.mpr hspace)⟩
  | overruns hend hrun =>
    rw [hrun]
    exact iff_of_false id fun h => absurd h.1 (Nat.not_lt.mpr hend)

theorem next_limited {call : Call} (h : next b call = some b') : Limited b' := by
  cases call with
  | append data =>
    change leaves ((Buffer.append data.val).run b) = some b' at h
    cases append_outcome limited data.property with
    | stores _ hrun limited' _ =>
      rw [hrun] at h
      cases h
      exact limited'
    | throws _ _ _ hrun =>
      rw [hrun] at h
      cases h
      exact limited
    | overruns _ hrun =>
      rw [hrun] at h
      cases h
  | retrieve len =>
    cases h
    exact retrieve_limited limited len.toNat
  | retrieveAll =>
    cases h
    exact ⟨retrieveAll_sized limited.toSized, le_rfl, limited.capacity_le⟩

end Outcomes

/-- In every state of a buffer that is only appended to and read from, the limit bounds the
live data of an `append` exactly when the space in front of them is not needed. -/
theorem append_limit_iff {calls : List Call} {b : Buffer}
    (hrun : run next (new kInitialSize) calls = some b) (data : Data) :
    LimitsLive b data.val ↔ Reclaims b data.val.length := by
  have limited : Limited b :=
    run_invariant_of_forall (fun _ _ _ limited => next_limited limited) new_limited hrun
  exact limitsLive_iff limited data.property

/-- Some of what came in has been read. -/
def readPart : List Call := [.append ⟨[1, 2, 3, 4, 5], by decide⟩, .retrieve 2]

theorem append_limit_iff_empty : ∃ b, run next (new kInitialSize) readPart = some b ∧
    b.readableBytes = 3 ∧ (LimitsLive b [1, 2, 3] ↔ Reclaims b 3) := by
  have hview : (run next (new kInitialSize) readPart).map (·.readableBytes) = some 3 := by
    decide +kernel
  obtain ⟨b, hrun, hlive⟩ := Option.map_eq_some_iff.mp hview
  exact ⟨b, hrun, hlive, append_limit_iff hrun ⟨[1, 2, 3], by decide⟩⟩

section Refused

theorem append_grows {b : Buffer} (limited : Limited b) {data : Bytes}
    (hgrow : b.buffer.length - b.writerIndex + b.readerIndex < data.length + kPrependSize)
    (hlimit : b.writerIndex + data.length ≤ kMaxBufferSize) :
    ∃ b', (Buffer.append data).run b = .ok () b' ∧ Limited b' ∧
      b'.readerIndex = b.readerIndex ∧ b'.writerIndex = b.writerIndex + data.length ∧
      b'.buffer.length = b.writerIndex + data.length := by
  have hread := readable_length limited.toWellFormed
  have hr := limited.reader_ge
  have hr' := limited.reader_le
  have hm : kMaxBufferSize < 2 ^ 62 := by decide
  have hk : kPrependSize = 8 := rfl
  obtain ⟨b₁, hrun, hspace⟩ := @ensureWritableBytes_run b
    limited.toWellFormed data.length (by omega) (by omega) fun _ => hlimit
  obtain ⟨wf₁, -, hroom₁⟩ := hspace.spec limited.toWellFormed
  have limited₁ := madeSpace_limited limited hspace
  refine ⟨b₁.written data, append_of_space wf₁ hrun hroom₁, written_limited limited₁ hroom₁, ?_⟩
  rw [written_length hroom₁]
  cases hspace with
  | room hroom => omega
  | grown =>
    refine ⟨rfl, rfl, ?_⟩
    simp only [List.length_append, List.length_replicate]
    omega
  | compacted _ _ _ hfit => omega

theorem exists_data {n : Nat} (hn : n < 2 ^ 64) : ∃ data : Data, data.val.length = n :=
  ⟨⟨List.replicate n 0, List.length_replicate.trans_lt hn⟩, List.length_replicate⟩

/-- 32 MiB and ten bytes come in and all but the ten are read; then 40 MiB are refused. -/
theorem live_data_refused : ∃ (calls : List Call) (b : Buffer) (data : Data),
    run next (new kInitialSize) calls = some b ∧ b.readableBytes = 10 ∧
    data.val.length = 40 * 1024 * 1024 ∧
    kPrependSize + b.readableBytes + data.val.length ≤ kMaxBufferSize ∧
    (∃ what, (Buffer.append data.val).run b = .error (.runtimeError what) b) ∧
    ¬LimitsLive b data.val := by
  obtain ⟨first, hfirst⟩ := exists_data (n := 33554442) (by decide)
  obtain ⟨second, hsecond⟩ := exists_data (n := 41943040) (by decide)
  have hk : kPrependSize = 8 := rfl
  have hm : kMaxBufferSize = 67108864 := rfl
  have hstart : (new kInitialSize).buffer.length = 1032 := new_length kInitialSize
  have hindices : (new kInitialSize).readerIndex = 8 ∧ (new kInitialSize).writerIndex = 8 :=
    ⟨rfl, rfl⟩
  obtain ⟨b, hrun, limited, hreader, hwriter, hlength⟩ := @append_grows _ new_limited
    first.val (by omega) (by omega)
  have hbytes : b.readableBytes = 33554442 := by
    rw [readableBytes_eq limited.toWellFormed, readable_length limited.toWellFormed]
    omega
  have hread : b.retrieve 33554432 = { b with readerIndex := 33554440 } := by
    have hadvance : wrap (b.readerIndex + 33554432) = 33554440 := by
      rw [hreader, hindices.1]
      rfl
    rw [retrieve, hbytes, if_pos (by decide), hadvance]
  have limited' : Limited (b.retrieve 33554432) := retrieve_limited limited _
  have hlive : (b.retrieve 33554432).readable.length = 10 := by
    rw [readable_length limited'.toWellFormed, hread]
    dsimp only
    omega
  have hwriter' : (b.retrieve 33554432).writerIndex = 33554450 := by
    rw [hread]
    dsimp only
    omega
  have hlength' : (b.retrieve 33554432).buffer.length = 33554450 := by
    rw [retrieve_buffer]
    omega
  have hrun' : run next (new kInitialSize) [.append first, .retrieve 33554432] =
      some (b.retrieve 33554432) := by
    have hnext : next (new kInitialSize) (.append first) = some b := by
      rw [next, Call.exec, hrun]
      rfl
    rw [run_cons_some]
    exact ⟨b, hnext, rfl⟩
  have hthrows := @append_throws _ limited' second.val (by omega) (by omega) (by omega)
  have hsmall : (b.retrieve 33554432).readableBytes = 10 := by
    rw [readableBytes_eq limited'.toWellFormed, hlive]
  refine ⟨_, _, second, hrun', hsmall, hsecond, by omega, hthrows, ?_⟩
  obtain ⟨what, hthrow⟩ := hthrows
  unfold LimitsLive
  rw [hthrow]
  rintro ⟨-, hlimit⟩
  omega

end Refused

end Mprpc.BufferLimit
