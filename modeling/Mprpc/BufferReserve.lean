import Mprpc.BufferSafety

namespace Mprpc.BufferReserve

open Transport Buffer BufferSafety Library.Transition

/-- What is asked of `ensureWritableBytes`: it throws and changes nothing, or there is room
for the bytes and the live ones are as they were. -/
def Reserves (b : Buffer) (len : Nat) : Prop :=
  match (Buffer.ensureWritableBytes len).run b with
  | .ok _ b' => len ≤ b'.writableBytes ∧ b'.readable = b.readable
  | .error .outOfRange _ => False
  | .error _ b' => b' = b

/-- The writer's position does not wrap around, or the growth is refused all the same. -/
def Unwrapped (b : Buffer) (len : Nat) : Prop :=
  b.writerIndex + len < 2 ^ 64 ∨
    b.writableBytes + b.prependableBytes < wrap (len + kPrependSize) ∧
      kMaxBufferSize < wrap (b.writerIndex + len)

/-- What the calls of a run are to keep to: no request for space wraps around, and `shrink`
has its reserve in front of the live bytes and asks for a size below 2 ^ 64. -/
def Kept : Machine → Call → Prop
  | .live b, .ensureWritableBytes len => Unwrapped b len.toNat
  | .live b, .shrink reserve => Fits (.live b) (.shrink reserve)
  | _, _ => True

/-- The writer stays behind the reserve, and comes back to it when the buffer is empty. -/
structure Anchored (b : Buffer) : Prop where
  writer_ge : kPrependSize ≤ b.writerIndex
  empty : b.readerIndex = b.writerIndex → b.writerIndex = kPrependSize

theorem new_anchored (n : Nat) : Anchored (new n) := ⟨le_rfl, fun _ => rfl⟩

section Anchors

variable {b b' : Buffer} (s : b.Sized) (h : Anchored b)
include s h

theorem retrieve_anchored (n : Nat) : Anchored (b.retrieve n) := by
  have hread := readable_length s.toWellFormed
  have hbytes := readableBytes_eq s.toWellFormed
  have hw := s.writer_le
  have hs := s.size_lt
  unfold retrieve
  split
  · refine ⟨h.writer_ge, ?_⟩
    rw [wrap_of_lt (by omega)]
    intro hempty
    dsimp only at hempty
    omega
  · exact ⟨le_rfl, fun _ => rfl⟩

theorem written_anchored (data : Bytes) : Anchored (b.written data) := by
  have hr := s.reader_le
  refine ⟨h.writer_ge.trans (Nat.le_add_right _ _), ?_⟩
  intro hempty
  dsimp only [written] at hempty ⊢
  have hanchor := h.empty (by omega)
  omega

omit s in
theorem madeSpace_anchored {len : Nat} (hspace : MadeSpace b len b') : Anchored b' := by
  cases hspace with
  | room => exact h
  | grown => exact ⟨h.writer_ge, h.empty⟩
  | compacted buffer hlen hlive hfit =>
    refine ⟨Nat.le_add_right _ _, ?_⟩
    intro hempty
    exact hempty.symm

theorem prepended_anchored {data : Bytes} (hfit : data.length ≤ b.readerIndex) :
    Anchored (b.prepended data) := by
  have hr := s.reader_le
  refine ⟨h.writer_ge, ?_⟩
  intro hempty
  dsimp only [prepended] at hempty ⊢
  exact h.empty (by omega)

theorem append_anchored {data : Bytes} (hlen : data.length < 2 ^ 63)
    (hafter : after ((Buffer.append data).run b) = .live b') : Anchored b' := by
  cases ensureWritableBytes_cases s hlen with
  | inl hspace =>
    obtain ⟨b₁, hrun, hspace⟩ := hspace
    obtain ⟨wf₁, -, hroom₁⟩ := hspace.spec s.toWellFormed
    rw [append_of_space wf₁ hrun hroom₁] at hafter
    cases hafter
    exact written_anchored (hspace.sized s) (madeSpace_anchored h hspace) data
  | inr hfull =>
    obtain ⟨-, what, hrun⟩ := hfull
    have hthrow : (Buffer.append data).run b = .error (.runtimeError what) b := by
      simp only [Buffer.append, EStateM.run_bind, hrun]
    rw [hthrow] at hafter
    cases hafter
    exact h

theorem readFromFd_anchored {result : Readv} (hp : result.size ≤ b.offered)
    (hafter : after ((Buffer.readFromFd result).run b) = .live b') : Anchored b' := by
  cases result with
  | error errno =>
    rw [readFromFd_error s.toWellFormed] at hafter
    cases hafter
    exact h
  | bytes data =>
    by_cases hfit : data.length ≤ b.writableBytes
    · obtain ⟨-, hrun⟩ := readFromFd_fits s.toWellFormed hfit
      rw [hrun] at hafter
      cases hafter
      exact written_anchored s h data
    · obtain ⟨full, wf₁, hwriter, hreader, hsize, -, hrun⟩ := readFromFd_spills s.toWellFormed hfit
      have s₁ : full.Sized := ⟨wf₁, hsize.trans_le s.size_le⟩
      have hr := s.reader_le
      have hw := s.writer_le
      have hfull : Anchored full := by
        refine ⟨hwriter ▸ s.prepend_le, ?_⟩
        intro hempty
        have hanchor := h.empty (by omega)
        omega
      have hrest : (data.drop b.writableBytes).length < 2 ^ 63 := by
        have he : extraBufSize = 65536 := rfl
        have hoffer : data.length ≤ b.offered := hp
        unfold offered at hoffer
        rw [List.length_drop]
        split at hoffer <;> omega
      rw [hrun, after_bind_pure] at hafter
      exact append_anchored s₁ hfull hrest hafter

omit h in
theorem compact_anchored {c : Buffer} (hrun : (compact b).run b = .ok () c) : Anchored c := by
  by_cases hfits : kPrependSize + b.readable.length ≤ b.buffer.length
  · obtain ⟨buffer, -, -, hmove⟩ := compact_run s.toWellFormed hfits
    simp only [compact, EStateM.run_bind, hmove, EStateM.run_modify] at hrun
    cases hrun
    have hs := s.size_lt
    have hlive : wrap (kPrependSize + b.readableBytes) = kPrependSize + b.readable.length := by
      rw [readableBytes_eq s.toWellFormed, wrap_of_lt (by omega)]
    refine ⟨?_, Eq.symm⟩
    dsimp only
    rw [hlive]
    exact Nat.le_add_right _ _
  · rw [compact_outside s (Nat.lt_of_not_le hfits)] at hrun
    cases hrun

omit s in
theorem resized_anchored (size : Nat) : Anchored (resized b size) := ⟨h.writer_ge, h.empty⟩

omit h in
theorem shrink_anchored {reserve : Nat}
    (hafter : after ((Buffer.shrink reserve).run b) = .live b') : Anchored b' := by
  rw [shrink_eq] at hafter
  simp only [EStateM.run_bind, EStateM.run_get] at hafter
  by_cases hfits : kPrependSize + b.readable.length ≤ b.buffer.length
  · obtain ⟨c, hrun, -⟩ := compact_fits s hfits
    have hc := compact_anchored s hrun
    simp only [hrun] at hafter
    generalize wrap (wrap (kPrependSize + b.readableBytes) + reserve) = size at hafter
    by_cases hmax : size ≤ vectorMaxSize
    · rw [resize_run hmax] at hafter
      cases hafter
      exact resized_anchored hc size
    · rw [resize_refused (Nat.lt_of_not_le hmax)] at hafter
      cases hafter
      exact hc
  · simp only [compact_outside s (Nat.lt_of_not_le hfits)] at hafter
    cases hafter

theorem ensureWritableBytes_anchored {len : Nat}
    (hafter : after ((Buffer.ensureWritableBytes len).run b) = .live b') : Anchored b' := by
  by_cases hroom : len ≤ b.writableBytes
  · have hrun : (Buffer.ensureWritableBytes len).run b = .ok () b := by
      simp [Buffer.ensureWritableBytes, Nat.not_lt.mpr hroom]
    rw [hrun] at hafter
    cases hafter
    exact h
  rw [ensureWritableBytes_full hroom] at hafter
  by_cases hgrow : wrap (b.writableBytes + b.prependableBytes) < wrap (len + kPrependSize)
  · rw [makeSpace_grows hgrow] at hafter
    split at hafter <;> cases hafter
    · exact h
    · exact resized_anchored h _
  · rw [makeSpace_moves hgrow] at hafter
    by_cases hfits : kPrependSize + b.readable.length ≤ b.buffer.length
    · obtain ⟨c, hrun, -⟩ := compact_fits s hfits
      rw [hrun] at hafter
      cases hafter
      exact compact_anchored s hrun
    · rw [compact_outside s (Nat.lt_of_not_le hfits)] at hafter
      cases hafter

theorem exec_anchored {call : Call} (hp : call.Possible b)
    (hafter : after (call.exec.run b) = .live b') : Anchored b' := by
  cases call with
  | append data => exact append_anchored s h data.property hafter
  | prepend data =>
    by_cases hfit : data.val.length ≤ b.readerIndex
    · change after ((Buffer.prepend data.val).run b) = _ at hafter
      rw [prepend_run s hfit] at hafter
      cases hafter
      exact prepended_anchored s h hfit
    · obtain ⟨what, hrun⟩ := prepend_full (Nat.lt_of_not_le hfit)
      change after ((Buffer.prepend data.val).run b) = _ at hafter
      rw [hrun] at hafter
      cases hafter
      exact h
  | retrieve len =>
    cases hafter
    exact retrieve_anchored s h len.toNat
  | retrieveAll =>
    cases hafter
    exact ⟨le_rfl, fun _ => rfl⟩
  | ensureWritableBytes len => exact ensureWritableBytes_anchored s h hafter
  | readFromFd result =>
    refine readFromFd_anchored s h hp ?_
    rw [← after_bind_pure _ () b]
    exact hafter
  | shrink reserve => exact shrink_anchored s hafter

end Anchors

/-- A size below the writer cuts live bytes off. -/
theorem resized_live {b : Buffer} {size : Nat} (hw : b.writerIndex ≤ b.buffer.length)
    (hsize : size ≤ b.writerIndex) : (resized b size).readable.length = size - b.readerIndex := by
  simp only [readable, resized, List.length_drop, List.length_take, List.length_append,
    List.length_replicate]
  omega

section Requests

variable {b : Buffer} {len : Nat} (s : b.Sized) (h : Anchored b)
include s h

theorem reserves_of_unwrapped (hu : Unwrapped b len) : Reserves b len := by
  have hr := s.reader_le
  have hw := s.writer_le
  have hsize := s.size_le
  have hwriter := h.writer_ge
  have hwr := writableBytes_eq s.toWellFormed
  have hsum := space_sum s
  have hk : kPrependSize = 8 := rfl
  have hv : vectorMaxSize = 2 ^ 63 - 1 := rfl
  have hm : kMaxBufferSize = 67108864 := rfl
  unfold Reserves
  by_cases hroom : len ≤ b.writableBytes
  · have hrun : (Buffer.ensureWritableBytes len).run b = .ok () b := by
      simp [Buffer.ensureWritableBytes, Nat.not_lt.mpr hroom]
    rw [hrun]
    exact ⟨hroom, rfl⟩
  obtain hend | ⟨hgrow, hlimit⟩ := hu
  · by_cases hlen : len < 2 ^ 63
    · obtain ⟨b', hrun, hspace⟩ | ⟨-, what, hrun⟩ := ensureWritableBytes_cases s hlen
      · obtain ⟨wf', hread, hroom'⟩ := hspace.spec s.toWellFormed
        rw [hrun]
        refine ⟨?_, hread⟩
        rw [writableBytes_eq wf']
        omega
      · rw [hrun]
    · -- no storage has that many bytes, and neither sum wraps around
      have hneed : wrap (len + kPrependSize) = len + kPrependSize := wrap_of_lt (by omega)
      have hnew : wrap (b.writerIndex + len) = b.writerIndex + len := wrap_of_lt hend
      have hgrow : wrap (b.writableBytes + b.prependableBytes) < wrap (len + kPrependSize) := by
        rw [hsum, hneed, hwr, prependableBytes]
        omega
      have hlimit : kMaxBufferSize < wrap (b.writerIndex + len) := by
        rw [hnew, hm]
        omega
      rw [ensureWritableBytes_full hroom, makeSpace_grows hgrow, if_pos hlimit]
  · rw [ensureWritableBytes_full hroom, makeSpace_grows (by rwa [hsum]), if_pos hlimit]

theorem not_reserves (hlen : len < 2 ^ 64) (hu : ¬Unwrapped b len) : ¬Reserves b len := by
  have hr := s.reader_le
  have hw := s.writer_le
  have hsize := s.size_le
  have hread := readable_length s.toWellFormed
  have hwr := writableBytes_eq s.toWellFormed
  have hsum := space_sum s
  have hk : kPrependSize = 8 := rfl
  have hv : vectorMaxSize = 2 ^ 63 - 1 := rfl
  obtain ⟨hend, hthrow⟩ := not_or.mp hu
  have hroom : ¬len ≤ b.writableBytes := by omega
  unfold Reserves
  rw [ensureWritableBytes_full hroom]
  by_cases hgrow : b.writableBytes + b.prependableBytes < wrap (len + kPrependSize)
  · have hlimit : ¬kMaxBufferSize < wrap (b.writerIndex + len) := fun hl => hthrow ⟨hgrow, hl⟩
    have hnew : wrap (b.writerIndex + len) = b.writerIndex + len - 2 ^ 64 := by
      unfold wrap
      omega
    rw [makeSpace_grows (by rwa [hsum]), if_neg hlimit]
    rintro ⟨-, hlive⟩
    -- the storage is cut off below the writer, so that live bytes are lost
    have hcut : (resized b (wrap (b.writerIndex + len))).readable.length =
        wrap (b.writerIndex + len) - b.readerIndex := resized_live hw (by omega)
    rw [hlive, hread, hnew] at hcut
    have hanchor := h.empty (by omega)
    rw [prependableBytes] at hgrow
    unfold wrap at hgrow
    omega
  · rw [makeSpace_moves (by rwa [hsum])]
    by_cases hfits : kPrependSize + b.readable.length ≤ b.buffer.length
    · obtain ⟨c, hrun, s₁, hlength, -⟩ := compact_fits s hfits
      rw [hrun]
      rintro ⟨hroom₁, -⟩
      rw [writableBytes_eq s₁.toWellFormed] at hroom₁
      omega
    · rw [compact_outside s (Nat.lt_of_not_le hfits)]
      exact id

omit s in
theorem roomy_of_unwrapped (hu : Unwrapped b len) : Roomy b len := by
  have hwriter := h.writer_ge
  have hk : kPrependSize = 8 := rfl
  by_cases hroom : len ≤ b.writableBytes
  · exact .inl hroom
  refine .inr ?_
  split
  · exact hu.imp id And.right
  · rename_i hgrow
    obtain hend | ⟨hgrow', -⟩ := hu
    · rw [wrap_of_lt (by omega)] at hgrow
      omega
    · exact absurd hgrow' hgrow

end Requests

/-- What holds of the buffer between two calls. -/
def Machine.Steady : Machine → Prop
  | .live b => b.Sized ∧ Anchored b
  | .outside => False

theorem fits_of_kept {m : Machine} {call : Call} (h : Machine.Steady m) (hkept : Kept m call) :
    Fits m call := by
  cases m with
  | outside => exact h.elim
  | live b =>
    cases call with
    | ensureWritableBytes len => exact roomy_of_unwrapped h.2 hkept
    | shrink reserve => exact hkept
    | append | prepend | retrieve | retrieveAll | readFromFd => trivial

theorem step_steady (m : Machine) (call : Call) (m' : Machine) (h : Machine.Steady m)
    (hkept : Kept m call) (hstep : step m call = some m') : Machine.Steady m' := by
  cases m with
  | outside => exact h.elim
  | live b =>
    have sound : Machine.Sound m' := step_sound (m := .live b) h.1 (fits_of_kept h hkept) hstep
    rw [step] at hstep
    split at hstep
    · rename_i hp
      have hafter := Option.some.inj hstep
      cases m' with
      | live b' => exact ⟨sound, exec_anchored h.1 h.2 hp hafter⟩
      | outside => exact sound
    · cases hstep

/-- In every state that a run comes to whose calls keep to their conditions, a request for
space does what is asked of it exactly when it does not wrap around. -/
theorem reserves_iff {initialSize : UInt64} {calls : List Call} {b₀ b : Buffer}
    (hnew : construct initialSize.toNat = .ok b₀)
    (hsize : kPrependSize + initialSize.toNat < 2 ^ 64)
    (hkept : Guarded step Kept (.live b₀) calls)
    (hrun : run step (.live b₀) calls = some (.live b)) (len : UInt64) :
    Reserves b len.toNat ↔ Unwrapped b len.toNat := by
  obtain ⟨rfl, -⟩ := construct_ok hnew
  have hstart : Machine.Steady (.live (new initialSize.toNat)) :=
    ⟨construct_sized hnew hsize, new_anchored _⟩
  obtain ⟨s, h⟩ : Machine.Steady (.live b) := run_invariant step_steady hstart hkept hrun
  constructor
  · intro hreserves
    by_contra hu
    exact not_reserves s h len.toNat_lt hu hreserves
  · exact reserves_of_unwrapped s h

/-- The storage has grown, and some of what came in has been read. -/
def usedCalls : List Call :=
  [.ensureWritableBytes 2000, .append ⟨[1, 2, 3, 4, 5], by decide⟩, .retrieve 2,
    .readFromFd (.bytes [6])]

theorem usedCalls_kept : Guarded step Kept (.live (new kInitialSize)) usedCalls := by
  have hrest : ∀ call ∈ usedCalls.tail, ∀ s, Kept s call := by
    intro call hcall s
    simp only [usedCalls, List.tail_cons, List.mem_cons, List.not_mem_nil, or_false] at hcall
    obtain rfl | rfl | rfl := hcall <;> cases s <;> trivial
  refine ⟨.inl (by decide), fun t _ => ?_⟩
  exact guarded_of_invariant (P := fun _ => True) (fun _ _ _ _ _ _ => trivial)
    (fun s call _ hcall => hrest call hcall s) trivial fun call hcall => hcall

theorem reserves_iff_default : ∃ b,
    run step (.live (new kInitialSize)) usedCalls = some (.live b) ∧ b.readableBytes = 4 ∧
      (Reserves b (2 ^ 64 - 8) ↔ Unwrapped b (2 ^ 64 - 8)) := by
  have hview : (run step (.live (new kInitialSize)) usedCalls).map (fun
      | .live b => some b.readableBytes
      | .outside => none) = some (some 4) := by
    decide +kernel
  obtain ⟨state, hrun, hlive⟩ := Option.map_eq_some_iff.mp hview
  cases state with
  | outside => cases hlive
  | live b =>
    exact ⟨b, hrun, Option.some.inj hlive,
      @reserves_iff 1024 usedCalls _ _ rfl (by decide) usedCalls_kept hrun 18446744073709551608⟩

/-- The request wraps around to 0, and comes through without room. -/
theorem wrapped_request_passes : ∃ b', (Buffer.ensureWritableBytes (2 ^ 64 - 8)).run
    (new kInitialSize) = .ok () b' ∧ b'.writableBytes = 1024 ∧
      ¬Reserves (new kInitialSize) (2 ^ 64 - 8) := by
  have s : (new kInitialSize).Sized := construct_sized (n := kInitialSize) rfl (by decide)
  have hlive : (new kInitialSize).readable.length = 0 := by rw [new_readable, List.length_nil]
  have hsize : (new kInitialSize).buffer.length = 1032 := new_length kInitialSize
  have hfits : kPrependSize + (new kInitialSize).readable.length ≤
      (new kInitialSize).buffer.length := by
    rw [hlive, hsize]
    decide
  obtain ⟨c, hcompact, s₁, hlength, hwriter⟩ := compact_fits s hfits
  have hroom : c.writableBytes = 1024 := by
    rw [writableBytes_eq s₁.toWellFormed, hlength, hsize, hwriter, hlive]
    rfl
  have hfull : ¬2 ^ 64 - 8 ≤ (new kInitialSize).writableBytes := by decide +kernel
  have hwrap : ¬wrap ((new kInitialSize).writableBytes + (new kInitialSize).prependableBytes) <
      wrap (2 ^ 64 - 8 + kPrependSize) := by decide +kernel
  have hrun : (Buffer.ensureWritableBytes (2 ^ 64 - 8)).run (new kInitialSize) = .ok () c := by
    rw [ensureWritableBytes_full hfull, makeSpace_moves hwrap, hcompact]
  refine ⟨c, hrun, hroom, ?_⟩
  unfold Reserves
  rw [hrun]
  rintro ⟨henough, -⟩
  rw [hroom] at henough
  omega

end Mprpc.BufferReserve
