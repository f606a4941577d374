import Mathlib.Algebra.BigOperators.Group.Finset.Basic
import Mathlib.Algebra.Order.BigOperators.Group.Finset
import Mathlib.Tactic.Linarith
import Mathlib.Tactic.Ring

namespace Mprpc.Library.SmoothRoundRobin

open Finset

variable {ι : Type*} [DecidableEq ι] (s : Finset ι) (w : ι → ℤ)

/-- Credit every member with its weight, then charge the total to the one chosen. -/
def settle (c : ι → ℤ) (i : ι) : ι → ℤ :=
  Function.update (fun j => c j + w j) i (c i + w i - ∑ j ∈ s, w j)

/-- The schedules that always choose a member with the largest credit, and the
counters they lead to. -/
inductive Schedule : List ι → (ι → ℤ) → Prop
  | nil : Schedule [] 0
  | snoc {picks : List ι} {c : ι → ℤ} {i : ι} : Schedule picks c → i ∈ s →
      (∀ j ∈ s, c j + w j ≤ c i + w i) → Schedule (picks ++ [i]) (settle s w c i)

variable {s w} {picks : List ι} {c : ι → ℤ}

theorem Schedule.counter_eq (h : Schedule s w picks c) (j : ι) :
    c j = picks.length * w j - (∑ k ∈ s, w k) * picks.count j := by
  induction h with
  | nil => simp
  | @snoc picks c i h hi hmax ih =>
    by_cases hj : j = i
    · subst hj
      simp only [settle, Function.update_self, ih, List.length_append, List.length_singleton,
        List.count_append, List.count_singleton_self]
      push_cast
      ring
    · have hn : [i].count j = 0 := List.count_eq_zero.mpr (by simpa using hj)
      simp only [settle, Function.update_of_ne hj, ih, List.length_append, List.length_singleton,
        List.count_append, hn]
      push_cast
      ring

theorem Schedule.sum_eq_zero (h : Schedule s w picks c) : ∑ j ∈ s, c j = 0 := by
  induction h with
  | nil => simp
  | @snoc picks c i h hi hmax ih =>
    have hrest : ∑ j ∈ s.erase i, settle s w c i j = ∑ j ∈ s.erase i, (c j + w j) := by
      apply sum_congr rfl
      intro j hj
      simp [settle, ne_of_mem_erase hj]
    have hall : ∑ j ∈ s.erase i, (c j + w j) + (c i + w i) = ∑ j ∈ s, w j := by
      rw [sum_erase_add s _ hi, sum_add_distrib, ih, zero_add]
    rw [← sum_erase_add s _ hi, hrest]
    simp only [settle, Function.update_self]
    linarith

theorem Schedule.exists_pos (hw : ∀ j ∈ s, 0 < w j) (h : Schedule s w picks c)
    (hs : s.Nonempty) : ∃ j ∈ s, 0 < c j + w j := by
  have hsum : 0 < ∑ k ∈ s, (c k + w k) := by
    rw [sum_add_distrib, h.sum_eq_zero, zero_add]
    exact sum_pos hw hs
  exact exists_lt_of_sum_lt (f := fun _ => (0 : ℤ)) (by simpa using hsum)

/-- The largest credit is positive, so that after paying a member owes less than
the total. -/
theorem Schedule.neg_lt (hw : ∀ j ∈ s, 0 < w j) (h : Schedule s w picks c) :
    ∀ j ∈ s, -∑ k ∈ s, w k < c j := by
  induction h with
  | nil =>
    intro j hj
    have hpos : 0 < ∑ k ∈ s, w k := sum_pos hw ⟨j, hj⟩
    simpa using hpos
  | @snoc picks c i h hi hmax ih =>
    intro j hj
    have hwj := hw j hj
    by_cases hji : j = i
    · subst hji
      obtain ⟨k, hk, hpos⟩ := h.exists_pos hw ⟨j, hj⟩
      have hle := hmax k hk
      simp only [settle, Function.update_self]
      linarith
    · have hlt := ih j hj
      simp only [settle, Function.update_of_ne hji]
      linarith

theorem Schedule.le_card (hw : ∀ j ∈ s, 0 < w j) (h : Schedule s w picks c) {j : ι} (hj : j ∈ s) :
    c j ≤ (s.card - 1) * ∑ k ∈ s, w k := by
  have hsum : ∑ k ∈ s.erase j, c k + c j = 0 := by
    rw [sum_erase_add s _ hj]
    exact h.sum_eq_zero
  have hle : ∑ k ∈ s.erase j, -c k ≤ ∑ _k ∈ s.erase j, ∑ k ∈ s, w k := by
    apply sum_le_sum
    intro k hk
    have hlt := h.neg_lt hw k (mem_of_mem_erase hk)
    linarith
  have hcard : ((s.erase j).card : ℤ) = s.card - 1 := by
    have hpos : 0 < s.card := card_pos.mpr ⟨j, hj⟩
    rw [card_erase_of_mem hj]
    omega
  rw [sum_neg_distrib, sum_const, nsmul_eq_mul, hcard] at hle
  linarith

/-- A member is never chosen a whole turn too early. -/
theorem Schedule.count_lt (hw : ∀ j ∈ s, 0 < w j) (h : Schedule s w picks c) {j : ι} (hj : j ∈ s) :
    (∑ k ∈ s, w k) * picks.count j < picks.length * w j + ∑ k ∈ s, w k := by
  have hlt := h.neg_lt hw j hj
  rw [h.counter_eq j] at hlt
  linarith

/-- After a number of choices that the total divides, the counters are multiples
of the total above its negative: none is negative, so all are zero. -/
theorem Schedule.eq_zero (hw : ∀ j ∈ s, 0 < w j) (h : Schedule s w picks c) {m : ℤ}
    (hlen : (picks.length : ℤ) = m * ∑ k ∈ s, w k) : ∀ j ∈ s, c j = 0 := by
  have hnonneg : ∀ j ∈ s, 0 ≤ c j := by
    intro j hj
    have hpos : 0 < ∑ k ∈ s, w k := sum_pos hw ⟨j, hj⟩
    have hlt := h.neg_lt hw j hj
    have heq : c j = (∑ k ∈ s, w k) * (m * w j - picks.count j) := by
      rw [h.counter_eq j, hlen]
      ring
    by_contra hneg
    have hfac : m * w j - picks.count j ≤ -1 := by
      by_contra hge
      have hfac : 0 ≤ m * w j - picks.count j := by omega
      exact hneg (heq ▸ mul_nonneg hpos.le hfac)
    have hmul := mul_le_mul_of_nonneg_left hfac hpos.le
    linarith
  exact (sum_eq_zero_iff_of_nonneg hnonneg).mp h.sum_eq_zero

theorem Schedule.count_eq (hw : ∀ j ∈ s, 0 < w j) (h : Schedule s w picks c) {m : ℤ}
    (hlen : (picks.length : ℤ) = m * ∑ k ∈ s, w k) {j : ι} (hj : j ∈ s) :
    (picks.count j : ℤ) = m * w j := by
  have hpos : 0 < ∑ k ∈ s, w k := sum_pos hw ⟨j, hj⟩
  have hzero := h.eq_zero hw hlen j hj
  rw [h.counter_eq j, hlen] at hzero
  have heq : (∑ k ∈ s, w k) * (picks.count j : ℤ) = (∑ k ∈ s, w k) * (m * w j) := by linarith
  exact mul_left_cancel₀ hpos.ne' heq

end Mprpc.Library.SmoothRoundRobin
