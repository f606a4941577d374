import Mathlib.Data.Fintype.Basic
import Mathlib.Data.List.Basic
import Mathlib.Logic.Function.Basic

namespace Mprpc.Library.SharedStream

variable {ι α : Type*}

/-- The stream is some order of all the blocks, each once and whole. -/
def Concatenated (block : ι → List α) (stream : List α) : Prop :=
  ∃ order : List ι, order.Nodup ∧ (∀ i, i ∈ order) ∧ stream = order.flatMap block

/-- Nothing or everything of the block has been written. -/
def Rests (block : ι → List α) (position : ι → Nat) (i : ι) : Prop :=
  position i = 0 ∨ position i = (block i).length

/-- The blocks in `order` have been written and no other has been begun. -/
structure Settled (block : ι → List α) (position : ι → Nat) (stream : List α) (order : List ι) :
    Prop where
  nodup : order.Nodup
  done : ∀ i ∈ order, position i = (block i).length
  rest : ∀ i, i ∉ order → position i = 0
  stream_eq : stream = order.flatMap block

variable [DecidableEq ι]

/-- Writers that put their blocks on one stream piece by piece, one block after
the other: all is settled up to at most one of them. -/
inductive Turns (block : ι → List α) (position : ι → Nat) (stream : List α) : Prop
  | between (order : List ι) : Settled block position stream order → Turns block position stream
  | midway (order : List ι) (k : ι) (base : List α) : k ∉ order →
      Settled block (Function.update position k 0) base order →
      stream = base ++ (block k).take (position k) → Turns block position stream

variable {block : ι → List α} {position : ι → Nat} {stream : List α}

theorem turns_start : Turns block (fun _ => 0) [] :=
  .between [] ⟨List.nodup_nil, by simp, by simp, rfl⟩

theorem settled_of_rests {order : List ι} {k : ι} {base : List α} (hk : k ∉ order)
    (h : Settled block (Function.update position k 0) base order)
    (hstream : stream = base ++ (block k).take (position k)) (hr : Rests block position k) :
    ∃ order, Settled block position stream order := by
  cases hr with
  | inl hzero =>
    have hposition : Function.update position k 0 = position := by
      rw [← hzero, Function.update_eq_self]
    rw [hposition] at h
    rw [hzero, List.take_zero, List.append_nil] at hstream
    exact ⟨order, hstream ▸ h⟩
  | inr hfull =>
    have hother : ∀ i, i ≠ k → Function.update position k 0 i = position i := by
      intro i hi
      exact Function.update_of_ne hi _ _
    refine ⟨order ++ [k], ?_, ?_, ?_, ?_⟩
    · rw [List.nodup_append]
      refine ⟨h.nodup, List.nodup_singleton k, ?_⟩
      intro i hi j hj
      rw [List.mem_singleton.mp hj]
      rintro rfl
      exact hk hi
    · intro i hi
      by_cases hik : i = k
      · rw [hik, hfull]
      · have hmem : i ∈ order := by simpa [hik] using hi
        rw [← hother i hik, h.done i hmem]
    · intro i hi
      rw [List.mem_append, List.mem_singleton, not_or] at hi
      rw [← hother i hi.2, h.rest i hi.1]
    · rw [hstream, hfull, List.take_length, List.flatMap_append, List.flatMap_singleton,
        h.stream_eq]

theorem Turns.settled (h : Turns block position stream) (hall : ∀ i, Rests block position i) :
    ∃ order, Settled block position stream order := by
  cases h with
  | between order h => exact ⟨order, h⟩
  | midway order k base hk h hstream => exact settled_of_rests hk h hstream (hall k)

/-- Once every block is complete, the stream is one after the other. -/
theorem Turns.concatenated [Fintype ι] (h : Turns block position stream)
    (hall : ∀ i, position i = (block i).length) : Concatenated block stream := by
  obtain ⟨order, h⟩ := h.settled (fun i => .inr (hall i))
  let others := (Finset.univ.filter (fun i => i ∉ order)).toList
  have hothers : ∀ i, i ∈ others ↔ i ∉ order := by simp [others]
  have hempty : others.flatMap block = [] := by
    apply List.flatMap_eq_nil_iff.mpr
    intro i hi
    apply List.eq_nil_of_length_eq_zero
    rw [← hall i, h.rest i ((hothers i).mp hi)]
  refine ⟨order ++ others, ?_, ?_, ?_⟩
  · rw [List.nodup_append]
    refine ⟨h.nodup, Finset.nodup_toList _, ?_⟩
    rintro i hi j hj rfl
    exact (hothers i).mp hj hi
  · intro i
    rw [List.mem_append, hothers]
    exact Classical.em _
  · rw [List.flatMap_append, hempty, List.append_nil, h.stream_eq]

/-- A writer may go on while all the others rest. -/
theorem Turns.put (h : Turns block position stream) {i : ι} {n : Nat}
    (hothers : ∀ j, j ≠ i → Rests block position j) (hn : position i + n ≤ (block i).length) :
    Turns block (Function.update position i (position i + n))
      (stream ++ ((block i).drop (position i)).take n) := by
  have hsettled : ∀ order, Settled block position stream order →
      Turns block (Function.update position i (position i + n))
        (stream ++ ((block i).drop (position i)).take n) := by
    intro order h
    by_cases hi : i ∈ order
    · have hzero : n = 0 := by
        have hdone := h.done i hi
        omega
      rw [hzero, Nat.add_zero, Function.update_eq_self, List.take_zero, List.append_nil]
      exact .between order h
    · have hposition := h.rest i hi
      refine .midway order i stream hi ?_ ?_
      · rwa [Function.update_idem, ← hposition, Function.update_eq_self]
      · rw [Function.update_self, hposition, List.drop_zero, Nat.zero_add]
  cases h with
  | between order h => exact hsettled order h
  | midway order k base hk h hstream =>
    by_cases hki : k = i
    · subst hki
      refine .midway order k base hk ?_ ?_
      · rwa [Function.update_idem]
      · rw [Function.update_self, hstream, List.append_assoc, ← List.take_add]
    · obtain ⟨order', h'⟩ := settled_of_rests hk h hstream (hothers k hki)
      exact hsettled order' h'

end Mprpc.Library.SharedStream
