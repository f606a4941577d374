import Mprpc.BufferCalls
import Mprpc.Library.Transition

namespace Mprpc.BufferQueue

open Transport Buffer Library.ByteOrder Library.Transition

/-- A byte array of a length that real arrays can have. -/
abbrev Chunk := { data : Bytes // data.length < 2 ^ 62 }

abbrev Length := { len : Nat // len < 2 ^ 62 }

/-- The bit pattern of an integer. -/
abbrev Word (t : IntType) := BitVec (8 * t.size)

inductive Call
  | append (data : Chunk)
  | appendInt (t : IntType) (value : Word t)
  | prepend (data : Chunk)
  | prependInt (t : IntType) (value : Word t)
  | retrieve (len : UInt64)
  | retrieveAsVector (len : UInt64)
  | retrieveAsString (len : UInt64)
  | peekInt (t : IntType)
  | readInt (t : IntType)
  | ensureWritableBytes (len : Length)

inductive Answer
  | done
  | bytes (data : Bytes)
  | int (value : Nat)
deriving DecidableEq, Repr

namespace Call

def exec : Call → Buffer.Action Answer
  | .append data => do
    Buffer.append data.val
    return .done
  | .appendInt t value => do
    Buffer.appendInt t.size value.toNat
    return .done
  | .prepend data => do
    Buffer.prepend data.val
    return .done
  | .prependInt t value => do
    Buffer.prependInt t.size value.toNat
    return .done
  | .retrieve len => do
    modify (·.retrieve len.toNat)
    return .done
  | .retrieveAsVector len => return .bytes (← Buffer.retrieveAsVector len.toNat)
  | .retrieveAsString len => return .bytes (← Buffer.retrieveAsString len.toNat)
  | .peekInt t => return .int (← Buffer.peekInt t.size)
  | .readInt t => return .int (← Buffer.readInt t.size)
  | .ensureWritableBytes len => do
    Buffer.ensureWritableBytes len.val
    return .done

/-- What the call does to a queue of bytes, and `none` where the queue is too
short for it. -/
def onQueue : Call → Bytes → Option (Answer × Bytes)
  | .append data, q => some (.done, q ++ data.val)
  | .appendInt t value, q => some (.done, q ++ bigEndian t.size value.toNat)
  | .prepend data, q => some (.done, data.val ++ q)
  | .prependInt t value, q => some (.done, bigEndian t.size value.toNat ++ q)
  | .retrieve len, q => some (.done, q.drop len.toNat)
  | .retrieveAsVector len, q => some (.bytes (q.take len.toNat), q.drop len.toNat)
  | .retrieveAsString len, q => some (.bytes (q.take len.toNat), q.drop len.toNat)
  | .peekInt t, q =>
    if t.size ≤ q.length then some (.int (ofBigEndian (q.take t.size)), q) else none
  | .readInt t, q =>
    if t.size ≤ q.length then some (.int (ofBigEndian (q.take t.size)), q.drop t.size) else none
  | .ensureWritableBytes _, q => some (.done, q)

/-- The reasons a call may throw for: the storage would grow past its limit,
the bytes do not fit in front of the live ones, or there are too few of them. -/
def Refused (b : Buffer) : Call → Prop
  | .append data => kMaxBufferSize < b.writerIndex + data.val.length
  | .appendInt t _ => kMaxBufferSize < b.writerIndex + t.size
  | .prepend data => b.readerIndex < data.val.length
  | .prependInt t _ => b.readerIndex < t.size
  | .peekInt t | .readInt t => b.readable.length < t.size
  | .ensureWritableBytes len => kMaxBufferSize < b.writerIndex + len.val
  | .retrieve _ | .retrieveAsVector _ | .retrieveAsString _ => False

end Call

def next (b : Buffer) (call : Call) : Option Buffer := leaves (call.exec.run b)

/-- The call does to the readable bytes what it does to a queue, or it throws
for one of its reasons and leaves them alone. -/
def Simulates (b : Buffer) (call : Call) : Prop :=
  match call.exec.run b with
  | .ok answer b' => call.onQueue b.readable = some (answer, b'.readable)
  | .error .outOfRange _ => False
  | .error _ b' => call.Refused b ∧ b'.readable = b.readable

structure Fifo (b : Buffer) : Prop where
  simulates : ∀ call, Simulates b call
  undoes_append : ∀ t (value : Word t) b₁,
    (Buffer.appendInt t.size value.toNat).run b = .ok () b₁ →
    ∃ b₂, (Buffer.readInt t.size).run (b₁.retrieve b.readable.length) = .ok value.toNat b₂ ∧
      b₂.readable = []
  undoes_prepend : ∀ t (value : Word t) b₁,
    (Buffer.prependInt t.size value.toNat).run b = .ok () b₁ →
    ∃ b₂, (Buffer.readInt t.size).run b₁ = .ok value.toNat b₂ ∧ b₂.readable = b.readable

/-- Every buffer that the constructor makes with this size starts out as the
empty queue and stays a queue whatever is called on it. -/
def IsFifo (initialSize : Nat) : Prop :=
  ∀ b, construct initialSize = .ok b →
    b.readable = [] ∧ ∀ calls b', run next b calls = some b' → Fifo b'

/-- The two ways a call on a sized buffer can end. -/
inductive Outcome (b : Buffer) (call : Call) : Prop
  | returns {answer : Answer} {b' : Buffer} (hrun : call.exec.run b = .ok answer b')
      (sized : b'.Sized) (hqueue : call.onQueue b.readable = some (answer, b'.readable)) :
      Outcome b call
  | throws {what : Text} (hrun : call.exec.run b = .error (.runtimeError what) b)
      (hrefused : call.Refused b) : Outcome b call

section Sequence

variable {α : Type} {f : Buffer.Action α} {b : Buffer} (answer : α → Answer)

theorem bind_ok {result : α} {b' : Buffer} (h : f.run b = .ok result b') :
    (f >>= fun x => pure (answer x)).run b = .ok (answer result) b' := by
  rw [EStateM.run_bind, h]
  rfl

theorem bind_error {e : Fault} {b' : Buffer} (h : f.run b = .error e b') :
    (f >>= fun x => pure (answer x)).run b = .error e b' := by
  rw [EStateM.run_bind, h]

end Sequence

section Outcomes

variable {b : Buffer} (s : b.Sized) {call : Call}
include s

theorem append_outcome {data : Bytes} (hlen : data.length < 2 ^ 62)
    (hexec : call.exec = do Buffer.append data; return .done)
    (hqueue : call.onQueue b.readable = some (.done, b.readable ++ data))
    (hrefused : kMaxBufferSize < b.writerIndex + data.length → call.Refused b) :
    Outcome b call := by
  have hlen' : data.length < 2 ^ 63 := by omega
  cases append_cases s hlen' with
  | inl h =>
    obtain ⟨b', hrun, s', hread⟩ := h
    rw [← hread] at hqueue
    exact .returns (hexec ▸ bind_ok (fun _ => .done) hrun) s' hqueue
  | inr h =>
    obtain ⟨hlimit, what, hrun⟩ := h
    exact .throws (hexec ▸ bind_error (fun _ => .done) hrun) (hrefused hlimit)

theorem prepend_outcome {data : Bytes}
    (hexec : call.exec = do Buffer.prepend data; return .done)
    (hqueue : call.onQueue b.readable = some (.done, data ++ b.readable))
    (hrefused : b.readerIndex < data.length → call.Refused b) : Outcome b call := by
  by_cases h : data.length ≤ b.readerIndex
  · rw [← prepended_readable s h] at hqueue
    exact .returns (hexec ▸ bind_ok (fun _ => .done) (prepend_run s h)) (prepended_sized s h) hqueue
  · have hfull := Nat.lt_of_not_le h
    obtain ⟨what, hrun⟩ := prepend_full hfull
    exact .throws (hexec ▸ bind_error (fun _ => .done) hrun) (hrefused hfull)

theorem retrieve_outcome (len : UInt64) : Outcome b (.retrieve len) := by
  refine .returns rfl (retrieve_sized s len.toNat) ?_
  rw [retrieve_readable s.toWellFormed]
  rfl

theorem retrieveAs_outcome {f : Buffer.Action Bytes} {len : Nat}
    (hrun : f.run b = .ok (b.readable.take len) (b.retrieve len))
    (hexec : call.exec = do return .bytes (← f))
    (hqueue : call.onQueue b.readable = some (.bytes (b.readable.take len), b.readable.drop len)) :
    Outcome b call := by
  rw [← retrieve_readable s.toWellFormed] at hqueue
  exact .returns (hexec ▸ bind_ok .bytes hrun) (retrieve_sized s len) hqueue

theorem peekInt_outcome (t : IntType) : Outcome b (.peekInt t) := by
  by_cases h : t.size ≤ b.readable.length
  · exact .returns (bind_ok .int (peekInt_eq s.toWellFormed t h)) s (if_pos h)
  · have hshort := Nat.lt_of_not_le h
    obtain ⟨what, hrun⟩ := peekInt_short s.toWellFormed hshort
    exact .throws (bind_error .int hrun) hshort

theorem readInt_outcome (t : IntType) : Outcome b (.readInt t) := by
  by_cases h : t.size ≤ b.readable.length
  · refine .returns (bind_ok .int (readInt_eq s.toWellFormed t h)) (retrieve_sized s t.size) ?_
    rw [retrieve_readable s.toWellFormed]
    exact if_pos h
  · have hshort := Nat.lt_of_not_le h
    obtain ⟨what, hrun⟩ := readInt_short s.toWellFormed hshort
    exact .throws (bind_error .int hrun) hshort

theorem ensureWritableBytes_outcome (len : Length) : Outcome b (.ensureWritableBytes len) := by
  have hlen := len.property
  have hlen' : len.val < 2 ^ 63 := by omega
  cases ensureWritableBytes_cases s hlen' with
  | inl h =>
    obtain ⟨b', hrun, hspace⟩ := h
    obtain ⟨-, hread, -⟩ := hspace.spec s.toWellFormed
    refine .returns (bind_ok (fun _ => .done) hrun) (hspace.sized s) ?_
    rw [hread]
    rfl
  | inr h =>
    obtain ⟨hlimit, what, hrun⟩ := h
    exact .throws (bind_error (fun _ => .done) hrun) hlimit

theorem outcome (call : Call) : Outcome b call := by
  cases call with
  | append data => exact append_outcome s data.property rfl rfl id
  | appendInt t value =>
    have hlen : (bigEndian t.size value.toNat).length < 2 ^ 62 := by
      rw [bigEndian_length]
      cases t <;> decide
    refine append_outcome s hlen ?_ rfl ?_
    · simp only [Call.exec, Buffer.appendInt, littleEndian_hostToNetwork]
    · rw [bigEndian_length]
      exact id
  | prepend data => exact prepend_outcome s rfl rfl id
  | prependInt t value =>
    refine prepend_outcome s ?_ rfl ?_
    · simp only [Call.exec, Buffer.prependInt, littleEndian_hostToNetwork]
    · rw [bigEndian_length]
      exact id
  | retrieve len => exact retrieve_outcome s len
  | retrieveAsVector len =>
    exact retrieveAs_outcome s (retrieveAsVector_eq s.toWellFormed len.toNat) rfl rfl
  | retrieveAsString len =>
    exact retrieveAs_outcome s (retrieveAsString_eq s.toWellFormed len.toNat) rfl rfl
  | peekInt t => exact peekInt_outcome s t
  | readInt t => exact readInt_outcome s t
  | ensureWritableBytes len => exact ensureWritableBytes_outcome s len

theorem simulates : Simulates b call := by
  cases outcome s call with
  | returns hrun _ hqueue => simpa only [Simulates, hrun] using hqueue
  | throws hrun hrefused => simpa only [Simulates, hrun, and_true] using hrefused

theorem next_sized {b' : Buffer} (h : next b call = some b') : b'.Sized := by
  cases outcome s call with
  | returns hrun s' _ =>
    rw [next, hrun] at h
    cases h
    exact s'
  | throws hrun _ =>
    rw [next, hrun] at h
    cases h
    exact s

theorem of_ok (call : Call) {answer : Answer} {b' : Buffer} (h : call.exec.run b = .ok answer b') :
    b'.Sized ∧ call.onQueue b.readable = some (answer, b'.readable) := by
  cases outcome s call with
  | returns hrun s' hqueue =>
    rw [h] at hrun
    cases hrun
    exact ⟨s', hqueue⟩
  | throws hrun _ =>
    rw [h] at hrun
    cases hrun

end Outcomes

theorem ofBigEndian_word (t : IntType) (value : Word t) :
    ofBigEndian (bigEndian t.size value.toNat) = value.toNat := by
  have hlt := value.isLt
  rw [ofBigEndian_bigEndian]
  apply Nat.mod_eq_of_lt
  rwa [show 256 = 2 ^ 8 from rfl, ← Nat.pow_mul]

theorem readInt_front {b : Buffer} (s : b.Sized) {t : IntType} {value : Word t} {rest : Bytes}
    (h : b.readable = bigEndian t.size value.toNat ++ rest) :
    ∃ b', (Buffer.readInt t.size).run b = .ok value.toNat b' ∧ b'.readable = rest := by
  have hlen := bigEndian_length t.size value.toNat
  have hfront : b.readable.take t.size = bigEndian t.size value.toNat := by
    rw [h, List.take_append_of_le_length hlen.ge, List.take_of_length_le hlen.le]
  have hshort : t.size ≤ b.readable.length := by
    rw [h, List.length_append]
    omega
  refine ⟨b.retrieve t.size, ?_, ?_⟩
  · rw [readInt_eq s.toWellFormed t hshort, hfront, ofBigEndian_word]
  · rw [retrieve_readable s.toWellFormed, h, List.drop_append_of_le_length hlen.ge,
      List.drop_of_length_le hlen.le, List.nil_append]

theorem fifo {b : Buffer} (s : b.Sized) : Fifo b := by
  refine ⟨fun _ => simulates s, ?_, ?_⟩
  · intro t value b₁ h
    obtain ⟨s₁, hqueue⟩ := of_ok s (.appendInt t value) (bind_ok (fun _ => .done) h)
    apply readInt_front (retrieve_sized s₁ _)
    have hread : b.readable ++ bigEndian t.size value.toNat = b₁.readable := by
      simpa [Call.onQueue] using hqueue
    rw [retrieve_readable s₁.toWellFormed, ← hread, List.drop_left, List.append_nil]
  · intro t value b₁ h
    obtain ⟨s₁, hqueue⟩ := of_ok s (.prependInt t value) (bind_ok (fun _ => .done) h)
    apply readInt_front s₁
    simpa [Call.onQueue, eq_comm] using hqueue

theorem run_sized {b b' : Buffer} {calls : List Call} (s : b.Sized)
    (h : run next b calls = some b') : b'.Sized :=
  run_invariant_of_forall (fun _ _ _ s => next_sized s) s h

/-- A writer beyond the storage makes the room look endless. -/
theorem append_outside {b : Buffer} (h : b.buffer.length < b.writerIndex)
    (hw : b.writerIndex < 2 ^ 64) (byte : UInt8) :
    (Buffer.append [byte]).run b = .error .outOfRange b := by
  have hroom : ¬ b.writableBytes < [byte].length := by
    unfold writableBytes wrapSub wrap
    simp only [List.length_singleton]
    omega
  have hstore : (store b.writerIndex [byte]).run b = .error .outOfRange b := by
    apply store_outside
    simp only [List.length_singleton]
    omega
  simp only [Buffer.append, Buffer.ensureWritableBytes, EStateM.run_bind, EStateM.run_get,
    if_neg hroom, EStateM.run_pure, hstore]

theorem wrapped_not_fifo {n : Nat} (hn : n < 2 ^ 64) (h : ¬ kPrependSize + n < 2 ^ 64) :
    ¬ IsFifo n := by
  intro hfifo
  obtain ⟨-, hcalls⟩ := hfifo _ (construct_wrapped hn h)
  have hlen : ([0] : Bytes).length < 2 ^ 62 := by decide
  have hw : kPrependSize < 2 ^ 64 := by decide
  have hrun : (Call.append ⟨[0], hlen⟩).exec.run (new n) = .error .outOfRange (new n) :=
    bind_error (fun _ => .done) (append_outside (new_wrapped hn h) hw 0)
  have hsim := (hcalls [] _ rfl).simulates (.append ⟨[0], hlen⟩)
  simp only [Simulates, hrun] at hsim

/-- The constructed buffers are queues exactly for the sizes that the
constructor can add its reserve to. -/
theorem fifo_iff (initialSize : UInt64) :
    IsFifo initialSize.toNat ↔ kPrependSize + initialSize.toNat < 2 ^ 64 := by
  constructor
  · intro hfifo
    by_contra h
    exact wrapped_not_fifo initialSize.toNat_lt h hfifo
  · intro h b hb
    have s := construct_sized hb h
    refine ⟨?_, fun calls b' hrun => fifo (run_sized s hrun)⟩
    obtain ⟨rfl, -⟩ := construct_ok hb
    exact new_readable _

/-- The largest size leaves seven bytes of storage, with both indices behind them. -/
theorem largest_not_fifo : ¬ IsFifo (2 ^ 64 - 1) :=
  wrapped_not_fifo (by decide) (by decide)

end Mprpc.BufferQueue
