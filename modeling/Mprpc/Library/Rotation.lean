import Mathlib.Algebra.Order.Floor.Div
import Mathlib.Data.Int.CardIntervalMod

namespace Mprpc.Library.Rotation

/-- The positions go around `n` places in their order, and come to each of them equally
often, up to one turn. -/
structure Even (n : Nat) (positions : List Nat) : Prop where
  placed : ∀ p ∈ positions, p < n
  fair : ∀ p < n, positions.count p = positions.length / n ∨
    positions.count p = positions.length ⌈/⌉ n
  cyclic : positions.IsChain fun p q => q = (p + 1) % n

/-- Consecutive numbers taken to places. -/
def turns (n start t : Nat) : List Nat := (List.range' start t).map (· % n)

theorem turns_length (n start t : Nat) : (turns n start t).length = t := by
  rw [turns, List.length_map, List.length_range']

theorem turns_succ (n start t : Nat) :
    turns n start (t + 1) = start % n :: turns n (start + 1) t := by
  rw [turns, List.range'_succ, List.map_cons, turns]

theorem turns_cyclic (n start t : Nat) :
    (turns n start t).IsChain fun p q => q = (p + 1) % n := by
  induction t generalizing start with
  | zero => exact .nil
  | succ t ih =>
    rw [turns_succ]
    cases t with
    | zero => exact .singleton _
    | succ t =>
      have hrest := ih (start + 1)
      rw [turns_succ] at hrest ⊢
      exact .cons_cons (Nat.mod_add_mod start n 1).symm hrest

variable {n : Nat}

theorem add_mod_eq_iff (hn : 0 < n) (start : Nat) {p : Nat} (hp : p < n) (i : Nat) :
    (start + i) % n = p ↔ i ≡ p + (n - start % n) [MOD n] := by
  have hround : start + (p + (n - start % n)) ≡ p [MOD n] := by
    have hsplit : start + (p + (n - start % n)) = p + n * (start / n + 1) := by
      have hmod := Nat.div_add_mod start n
      have hlt := Nat.mod_lt start hn
      rw [Nat.mul_add, Nat.mul_one]
      omega
    rw [hsplit]
    exact Nat.add_mul_mod_self_left p n _
  constructor
  · intro h
    have hsame : start + i ≡ p [MOD n] := h.trans (Nat.mod_eq_of_lt hp).symm
    exact Nat.ModEq.add_left_cancel' start (hsame.trans hround.symm)
  · intro h
    have hsame : start + i ≡ p [MOD n] := (Nat.ModEq.add_left start h).trans hround
    exact Eq.trans hsame (Nat.mod_eq_of_lt hp)

theorem count_turns (hn : 0 < n) (start t : Nat) {p : Nat} (hp : p < n) :
    (turns n start t).count p =
      t / n + if (p + (n - start % n)) % n < t % n then 1 else 0 := by
  have hcount : (turns n start t).count p = t.count (· ≡ p + (n - start % n) [MOD n]) := by
    rw [turns, List.range'_eq_map_range, List.map_map, List.count_eq_countP, List.countP_map,
      Nat.count]
    apply List.countP_congr
    intro i _
    simpa using add_mod_eq_iff hn start hp i
  rw [hcount, Nat.count_modEq_card t hn]

theorem ceilDiv_of_rest (hn : 0 < n) {t : Nat} (h : 0 < t % n) : t ⌈/⌉ n = t / n + 1 := by
  have hlt := Nat.mod_lt t hn
  have hsplit : t + n - 1 = t % n - 1 + n * (t / n + 1) := by
    have hmod := Nat.div_add_mod t n
    rw [Nat.mul_add, Nat.mul_one]
    omega
  rw [Nat.ceilDiv_eq_add_pred_div, hsplit, Nat.add_mul_div_left _ _ hn,
    Nat.div_eq_of_lt (by omega), Nat.zero_add]

theorem turns_even (hn : 0 < n) (start t : Nat) : Even n (turns n start t) := by
  refine ⟨?_, ?_, turns_cyclic n start t⟩
  · intro p hp
    obtain ⟨i, _, rfl⟩ := List.mem_map.mp hp
    exact Nat.mod_lt i hn
  intro p hp
  rw [turns_length, count_turns hn start t hp]
  split
  · rename_i hlt
    exact .inr (ceilDiv_of_rest hn (Nat.zero_lt_of_lt hlt)).symm
  · exact .inl rfl

end Mprpc.Library.Rotation
