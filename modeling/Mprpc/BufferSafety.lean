import Mprpc.BufferCalls
import Mprpc.Library.Transition

namespace Mprpc.BufferSafety

open Transport Buffer Library.Transition

/-- A byte array: no object is larger than half the address space. -/
abbrev Chunk := { data : Bytes // data.length < 2 ^ 63 }

inductive Call
  | append (data : Chunk)
  | prepend (data : Chunk)
  | retrieve (len : UInt64)
  | retrieveAll
  | ensureWritableBytes (len : UInt64)
  | readFromFd (result : Readv)
  | shrink (reserve : UInt64)

def Call.exec : Call → Buffer.Action Unit
  | .append data => Buffer.append data.val
  | .prepend data => Buffer.prepend data.val
  | .retrieve len => modify (·.retrieve len.toNat)
  | .retrieveAll => modify Buffer.retrieveAll
  | .ensureWritableBytes len => Buffer.ensureWritableBytes len.toNat
  | .readFromFd result => do
    let _ ← Buffer.readFromFd result
    return ()
  | .shrink reserve => Buffer.shrink reserve.toNat

/-- A `readv` gives no more bytes than it is asked for. -/
def Call.Possible (b : Buffer) : Call → Prop
  | .readFromFd result => result.size ≤ b.offered
  | _ => True

instance (b : Buffer) (call : Call) : Decidable (call.Possible b) := by
  cases call <;> unfold Call.Possible <;> infer_instance

/-- A buffer between two calls, or the moment at which a checked access to the
storage has failed. -/
inductive Machine
  | live (b : Buffer)
  | outside
deriving DecidableEq, Repr

def after {α : Type} (result : EStateM.Result Fault Buffer α) : Machine :=
  match leaves result with
  | some b => .live b
  | none => .outside

def step : Machine → Call → Option Machine
  | .live b, call => if call.Possible b then some (after (call.exec.run b)) else none
  | .outside, _ => none

def Machine.InBounds : Machine → Prop
  | .live b => b.readerIndex ≤ b.writerIndex ∧ b.writerIndex ≤ b.buffer.length
  | .outside => False

/-- After the construction and after every call the indices lie in the storage,
and no access has left it. -/
def Safe (initialSize : Nat) (calls : List Call) : Prop :=
  ∀ b, construct initialSize = .ok b → ∀ before state, before <+: calls →
    run step (.live b) before = some state → state.InBounds

/-- There is room already, or the storage grows to a size that does not wrap
around below the limit, or the bytes that move leave their reserve free. -/
def Roomy (b : Buffer) (len : Nat) : Prop :=
  len ≤ b.writableBytes ∨
    if b.writableBytes + b.prependableBytes < wrap (len + kPrependSize) then
      b.writerIndex + len < 2 ^ 64 ∨ kMaxBufferSize < wrap (b.writerIndex + len)
    else kPrependSize ≤ b.writableBytes + b.prependableBytes

/-- What `ensureWritableBytes` and `shrink` need of the buffer. -/
def Fits : Machine → Call → Prop
  | .live b, .ensureWritableBytes len => Roomy b len.toNat
  | .live b, .shrink reserve =>
    kPrependSize + b.readableBytes ≤ b.capacity ∧
      kPrependSize + b.readableBytes + reserve.toNat < 2 ^ 64
  | _, _ => True

/-- The call ends in a sized buffer. -/
def Lands {α : Type} (f : Buffer.Action α) (b : Buffer) : Prop :=
  ∃ b', b'.Sized ∧ after (f.run b) = .live b'

theorem after_bind_pure {α β : Type} (f : Buffer.Action α) (result : β) (b : Buffer) :
    after ((f >>= fun _ => pure result).run b) = after (f.run b) := by
  rw [EStateM.run_bind]
  cases f.run b with
  | ok _ _ => rfl
  | error e _ => cases e <;> rfl

section Landings

variable {b : Buffer} (s : b.Sized)
include s

theorem append_lands {data : Bytes} (hlen : data.length < 2 ^ 63) :
    Lands (Buffer.append data) b := by
  cases append_cases s hlen with
  | inl h =>
    obtain ⟨b', hrun, s', -⟩ := h
    exact ⟨b', s', by rw [hrun]; rfl⟩
  | inr h =>
    obtain ⟨-, what, hrun⟩ := h
    exact ⟨b, s, by rw [hrun]; rfl⟩

theorem prepend_lands (data : Bytes) : Lands (Buffer.prepend data) b := by
  by_cases h : data.length ≤ b.readerIndex
  · exact ⟨b.prepended data, prepended_sized s h, by rw [prepend_run s h]; rfl⟩
  · obtain ⟨what, hrun⟩ := prepend_full (Nat.lt_of_not_le h)
    exact ⟨b, s, by rw [hrun]; rfl⟩

/-- A read that spills over ends like the `append` of what the stack array took. -/
theorem readFromFd_lands {result : Readv} (h : result.size ≤ b.offered) :
    Lands (Buffer.readFromFd result) b := by
  cases result with
  | error errno => exact ⟨b, s, by rw [readFromFd_error s.toWellFormed]; rfl⟩
  | bytes data =>
    by_cases hfit : data.length ≤ b.writableBytes
    · obtain ⟨hfill, hrun⟩ := readFromFd_fits s.toWellFormed hfit
      exact ⟨b.written data, written_sized s hfill, by rw [hrun]; rfl⟩
    · obtain ⟨full, wf₁, -, -, hsize, -, hrun⟩ := readFromFd_spills s.toWellFormed hfit
      have s₁ : full.Sized := ⟨wf₁, hsize.trans_le s.size_le⟩
      have hrest : (data.drop b.writableBytes).length < 2 ^ 63 := by
        have he : extraBufSize = 65536 := rfl
        have hsize : data.length ≤ b.offered := h
        unfold offered at hsize
        rw [List.length_drop]
        split at hsize <;> omega
      obtain ⟨b', s', hafter⟩ := append_lands s₁ hrest
      refine ⟨b', s', ?_⟩
      rw [hrun, after_bind_pure]
      exact hafter

end Landings

/-- The move that `makeSpace` and `shrink` share. -/
def compact (b : Buffer) : Buffer.Action Unit := do
  memmove kPrependSize b.readerIndex b.readableBytes
  modify fun b' =>
    { b' with readerIndex := kPrependSize, writerIndex := wrap (kPrependSize + b.readableBytes) }

section Compaction

variable {b : Buffer} (s : b.Sized)
include s

theorem compact_fits (h : kPrependSize + b.readable.length ≤ b.buffer.length) :
    ∃ c : Buffer, (compact b).run b = .ok () c ∧ c.Sized ∧
      c.buffer.length = b.buffer.length ∧ c.writerIndex = kPrependSize + b.readable.length := by
  have hs := s.size_lt
  obtain ⟨buffer, hsize, -, hmove⟩ := compact_run s.toWellFormed h
  have hwriter : wrap (kPrependSize + b.readableBytes) = kPrependSize + b.readable.length := by
    rw [readableBytes_eq s.toWellFormed, wrap_of_lt (by omega)]
  refine ⟨⟨buffer, kPrependSize, kPrependSize + b.readable.length⟩, ?_, ?_, hsize, rfl⟩
  · simp only [compact, EStateM.run_bind, hmove, EStateM.run_modify, hwriter]
  · refine ⟨⟨Nat.le_add_right _ _, ?_, ?_, ?_⟩, ?_⟩
    · exact h.trans_eq hsize.symm
    · exact s.prepend_le.trans_eq hsize.symm
    · exact hsize.trans_lt hs
    · exact hsize.trans_le s.size_le

theorem compact_outside (h : b.buffer.length < kPrependSize + b.readable.length) :
    (compact b).run b = .error .outOfRange b := by
  have hlen := readable_length s.toWellFormed
  have hr := s.reader_le
  have hw := s.writer_le
  have hl := load_run b b.readerIndex b.readable.length (by omega)
  rw [live_eq s.toWellFormed] at hl
  have hbytes := readableBytes_eq s.toWellFormed
  simp only [compact, memmove, hbytes, EStateM.run_bind, hl, store_outside b kPrependSize h]

end Compaction

section Sizes

variable {b : Buffer}

/-- The storage cut or filled up to a size. -/
def resized (b : Buffer) (size : Nat) : Buffer :=
  { b with buffer := b.buffer.take size ++ List.replicate (size - b.buffer.length) 0 }

theorem resized_length (size : Nat) : (resized b size).buffer.length = size := by
  simp only [resized, List.length_append, List.length_take, List.length_replicate]
  omega

theorem resize_run {size : Nat} (h : size ≤ vectorMaxSize) :
    (resize size).run b = .ok () (resized b size) := by
  have hn : ¬ vectorMaxSize < size := Nat.not_lt.mpr h
  simp [resize, hn, resized]

theorem resize_refused {size : Nat} (h : vectorMaxSize < size) :
    (resize size).run b = .error .lengthError b := by
  simp [resize, h]

theorem resized_sized (s : b.Sized) {size : Nat} (hw : b.writerIndex ≤ size)
    (hp : kPrependSize ≤ size) (h : size ≤ vectorMaxSize) : (resized b size).Sized := by
  have hlen : (resized b size).buffer.length = size := resized_length size
  have hv : vectorMaxSize < 2 ^ 64 := by decide
  refine ⟨⟨s.reader_le, ?_, ?_, ?_⟩, ?_⟩
  · rwa [hlen]
  · rwa [hlen]
  · rw [hlen]
    omega
  · rwa [hlen]

theorem resized_breaks {size : Nat} (h : size < b.writerIndex) :
    ¬ (Machine.live (resized b size)).InBounds := by
  rintro ⟨-, hw⟩
  rw [resized_length] at hw
  exact absurd hw (Nat.not_le.mpr h)

end Sizes

section Shrink

variable {b : Buffer} {reserve : Nat}

theorem shrink_eq : Buffer.shrink reserve =
    (do
      let b ← get
      compact b
      resize (wrap (wrap (kPrependSize + b.readableBytes) + reserve))) := by
  simp only [Buffer.shrink, compact, bind_assoc]

variable (s : b.Sized)
include s

theorem shrink_run {c : Buffer} (hrun : (compact b).run b = .ok () c)
    (hfits : kPrependSize + b.readable.length ≤ b.buffer.length) :
    (Buffer.shrink reserve).run b =
      (resize (wrap (kPrependSize + b.readable.length + reserve))).run c := by
  have hs := s.size_lt
  have hlive : wrap (kPrependSize + b.readableBytes) = kPrependSize + b.readable.length := by
    rw [readableBytes_eq s.toWellFormed, wrap_of_lt (by omega)]
  rw [shrink_eq]
  simp only [EStateM.run_bind, EStateM.run_get, hrun, hlive]

theorem shrink_lands (hfits : kPrependSize + b.readable.length ≤ b.buffer.length)
    (hsum : kPrependSize + b.readable.length + reserve < 2 ^ 64) :
    Lands (Buffer.shrink reserve) b := by
  obtain ⟨c, hcompact, s₁, hlen, hwriter⟩ := compact_fits s hfits
  have hrun : (Buffer.shrink reserve).run b = _ := shrink_run s hcompact hfits
  rw [wrap_of_lt hsum] at hrun
  by_cases hmax : kPrependSize + b.readable.length + reserve ≤ vectorMaxSize
  · refine ⟨_, resized_sized s₁ ?_ ?_ hmax, by rw [hrun, resize_run hmax]; rfl⟩
    · omega
    · omega
  · exact ⟨c, s₁, by rw [hrun, resize_refused (Nat.lt_of_not_le hmax)]; rfl⟩

theorem shrink_breaks (hreserve : reserve < 2 ^ 64)
    (h : ¬ (kPrependSize + b.readable.length ≤ b.buffer.length ∧
      kPrependSize + b.readable.length + reserve < 2 ^ 64)) :
    ¬ (after ((Buffer.shrink reserve).run b)).InBounds := by
  have hs := s.size_lt
  have hsize := s.size_le
  by_cases hfits : kPrependSize + b.readable.length ≤ b.buffer.length
  · have hsum := not_and.mp h hfits
    obtain ⟨c, hcompact, s₁, hlen, hwriter⟩ := compact_fits s hfits
    have hwrap : wrap (kPrependSize + b.readable.length + reserve) =
        kPrependSize + b.readable.length + reserve - 2 ^ 64 := by
      unfold wrap
      omega
    rw [shrink_run s hcompact hfits, hwrap, resize_run (by omega)]
    apply resized_breaks
    omega
  · have hrun : (Buffer.shrink reserve).run b = .error .outOfRange b := by
      rw [shrink_eq]
      simp [compact_outside s (Nat.lt_of_not_le hfits)]
    rw [hrun]
    exact id

end Shrink

section Space

variable {b : Buffer} {len : Nat}

/-- The branch of `makeSpace` that is taken when even the whole of the storage is too small. -/
theorem makeSpace_grows
    (h : wrap (b.writableBytes + b.prependableBytes) < wrap (len + kPrependSize)) :
    (makeSpace len).run b =
      if kMaxBufferSize < wrap (b.writerIndex + len) then
        .error (.runtimeError (text "Buffer size exceeds maximum limit")) b
      else .ok () (resized b (wrap (b.writerIndex + len))) := by
  have hmax : kMaxBufferSize ≤ vectorMaxSize := by decide
  by_cases hlimit : kMaxBufferSize < wrap (b.writerIndex + len)
  · simp [makeSpace, h, hlimit]
  · have hsize : ¬ vectorMaxSize < wrap (b.writerIndex + len) := by omega
    simp [makeSpace, h, hlimit, resize, hsize, resized]

theorem makeSpace_moves
    (h : ¬ wrap (b.writableBytes + b.prependableBytes) < wrap (len + kPrependSize)) :
    (makeSpace len).run b = (compact b).run b := by
  simp [makeSpace, h, compact]

variable (s : b.Sized)
include s

theorem space_sum : wrap (b.writableBytes + b.prependableBytes) =
    b.writableBytes + b.prependableBytes := by
  rw [space_eq s.toWellFormed, writableBytes_eq s.toWellFormed, prependableBytes]

theorem ensureWritableBytes_lands (hlen : len < 2 ^ 64) (h : Roomy b len) :
    Lands (Buffer.ensureWritableBytes len) b := by
  have hread := readable_length s.toWellFormed
  have hr := s.reader_le
  have hw := s.writer_le
  have hp := s.prepend_le
  have hs := s.size_lt
  have hwr := writableBytes_eq s.toWellFormed
  by_cases hroom : len ≤ b.writableBytes
  · refine ⟨b, s, ?_⟩
    simp [Buffer.ensureWritableBytes, Nat.not_lt.mpr hroom, after, leaves]
  · have hspace := h.resolve_left hroom
    have hsum := space_sum s
    unfold Lands
    rw [ensureWritableBytes_full hroom]
    by_cases hgrow : b.writableBytes + b.prependableBytes < wrap (len + kPrependSize)
    · rw [if_pos hgrow] at hspace
      rw [makeSpace_grows (by rwa [hsum])]
      by_cases hlimit : kMaxBufferSize < wrap (b.writerIndex + len)
      · exact ⟨b, s, by rw [if_pos hlimit]; rfl⟩
      · have hend := hspace.resolve_right hlimit
        have hmax : kMaxBufferSize ≤ vectorMaxSize := by decide
        rw [wrap_of_lt hend] at hlimit ⊢
        rw [if_neg hlimit]
        exact ⟨_, resized_sized s (by omega) (by omega) (by omega), rfl⟩
    · rw [if_neg hgrow, prependableBytes] at hspace
      rw [makeSpace_moves (by rwa [hsum])]
      obtain ⟨c, hcompact, s₁, -, -⟩ := compact_fits s (by omega)
      exact ⟨c, s₁, by rw [hcompact]; rfl⟩

theorem ensureWritableBytes_breaks (hlen : len < 2 ^ 64) (h : ¬ Roomy b len) :
    ¬ (after ((Buffer.ensureWritableBytes len).run b)).InBounds := by
  have hread := readable_length s.toWellFormed
  have hr := s.reader_le
  have hw := s.writer_le
  have hs := s.size_lt
  have hwr := writableBytes_eq s.toWellFormed
  obtain ⟨hroom, hspace⟩ := not_or.mp h
  have hsum := space_sum s
  rw [ensureWritableBytes_full hroom]
  by_cases hgrow : b.writableBytes + b.prependableBytes < wrap (len + kPrependSize)
  · rw [if_pos hgrow] at hspace
    obtain ⟨hend, hlimit⟩ := not_or.mp hspace
    rw [makeSpace_grows (by rwa [hsum]), if_neg hlimit]
    apply resized_breaks
    unfold wrap
    omega
  · rw [if_neg hgrow, prependableBytes] at hspace
    rw [makeSpace_moves (by rwa [hsum]), compact_outside s (by omega)]
    exact id

end Space

theorem exec_lands {b : Buffer} (s : b.Sized) {call : Call} (hp : call.Possible b)
    (hfits : Fits (.live b) call) : Lands call.exec b := by
  cases call with
  | append data => exact append_lands s data.property
  | prepend data => exact prepend_lands s data.val
  | retrieve len => exact ⟨b.retrieve len.toNat, retrieve_sized s _, rfl⟩
  | retrieveAll => exact ⟨b.retrieveAll, retrieveAll_sized s, rfl⟩
  | ensureWritableBytes len => exact ensureWritableBytes_lands s len.toNat_lt hfits
  | readFromFd result =>
    obtain ⟨b', s', hafter⟩ := readFromFd_lands s hp
    exact ⟨b', s', (after_bind_pure _ () b).trans hafter⟩
  | shrink reserve =>
    obtain ⟨hreserve, hsum⟩ := hfits
    rw [readableBytes_eq s.toWellFormed] at hreserve hsum
    exact shrink_lands s hreserve hsum

theorem exec_breaks {b : Buffer} (s : b.Sized) {call : Call} (h : ¬ Fits (.live b) call) :
    ¬ (after (call.exec.run b)).InBounds := by
  cases call with
  | ensureWritableBytes len => exact ensureWritableBytes_breaks s len.toNat_lt h
  | shrink reserve =>
    rw [Fits, readableBytes_eq s.toWellFormed] at h
    exact shrink_breaks s reserve.toNat_lt h
  | append | prepend | retrieve | retrieveAll | readFromFd => exact absurd trivial h

def Machine.Sound : Machine → Prop
  | .live b => b.Sized
  | .outside => False

theorem Machine.Sound.inBounds {m : Machine} (h : m.Sound) : m.InBounds := by
  cases m with
  | live b => exact ⟨h.reader_le, h.writer_le⟩
  | outside => exact h

theorem step_sound {m m' : Machine} {call : Call} (h : m.Sound) (hfits : Fits m call)
    (hstep : step m call = some m') : m'.Sound := by
  cases m with
  | outside => exact h.elim
  | live b =>
    rw [step] at hstep
    split at hstep
    · rename_i hp
      obtain ⟨b', s', hafter⟩ := exec_lands h hp hfits
      rw [hafter] at hstep
      cases hstep
      exact s'
    · cases hstep

theorem step_fits {m : Machine} {call : Call} (h : m.Sound)
    (hsafe : ∀ m', step m call = some m' → m'.InBounds) : Fits m call := by
  cases m with
  | outside => exact h.elim
  | live b =>
    by_contra hfits
    have hp : call.Possible b := by
      cases call with
      | readFromFd => exact absurd trivial hfits
      | _ => trivial
    exact exec_breaks h hfits (hsafe _ (if_pos hp))

/-- The runs that stay in the storage are those on a buffer whose construction
does not wrap around, with every request for space and every shrink one that fits. -/
theorem safe_iff (initialSize : UInt64) (calls : List Call) :
    Safe initialSize.toNat calls ↔ ∀ b, construct initialSize.toNat = .ok b →
      kPrependSize + initialSize.toNat < 2 ^ 64 ∧ Guarded step Fits (.live b) calls := by
  apply forall₂_congr
  intro b hb
  by_cases hn : kPrependSize + initialSize.toNat < 2 ^ 64
  · have hsound : (Machine.live b).Sound := construct_sized hb hn
    rw [forall_prefix_iff_guarded_of_invariant (fun _ => Machine.Sound.inBounds)
      (fun _ _ _ => step_sound) (fun _ _ => step_fits) hsound]
    exact (and_iff_right hn).symm
  · refine iff_of_false ?_ (fun h => hn h.1)
    intro hsafe
    obtain ⟨rfl, -⟩ := construct_ok hb
    have hbounds := hsafe [] _ List.nil_prefix rfl
    exact absurd hbounds.2 (Nat.not_le.mpr (new_wrapped initialSize.toNat_lt hn))

/-- Bytes written in front of a full buffer leave `shrink` no room to move. -/
theorem shrink_overruns :
    ¬ Safe 0 [.prepend ⟨[1, 2, 3, 4], by decide⟩, .shrink 0] :=
  fun h => h (new 0) rfl _ .outside List.prefix_rfl rfl

end Mprpc.BufferSafety
