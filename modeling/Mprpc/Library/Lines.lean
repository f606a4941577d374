import Mathlib.Data.List.Basic
import Mathlib.Order.Defs.LinearOrder

namespace Mprpc.Library.Lines

variable {α : Type*}

/-- The text of lines that each end with a separator. -/
def unlines (sep : α) : List (List α) → List α
  | [] => []
  | l :: ls => l ++ sep :: unlines sep ls

/-- The lines of a text. What follows the last separator is a line if it is not empty. -/
def lines [DecidableEq α] (sep : α) : List α → List (List α)
  | [] => []
  | x :: xs =>
    if x = sep then [] :: lines sep xs
    else match lines sep xs with
      | [] => [[x]]
      | l :: ls => (x :: l) :: ls

/-- What is left of lines when their text is cut off after `n` elements. -/
def cut : Nat → List (List α) → List (List α)
  | _, [] => []
  | n, l :: ls =>
    if l.length < n then l :: cut (n - (l.length + 1)) ls
    else if l.take n = [] then []
    else [l.take n]

variable {sep : α} {l : List α} {ls : List (List α)}

theorem split_last {c : α} {x y u v : List α} (hu : c ∉ u) (hv : c ∉ v)
    (h : x ++ c :: u = y ++ c :: v) : x = y ∧ u = v := by
  obtain ⟨as, rfl, has⟩ | ⟨as, rfl, has⟩ := List.append_eq_append_iff.mp h
  · cases as with
    | nil =>
      cases has
      exact ⟨(List.append_nil x).symm, rfl⟩
    | cons a as =>
      obtain ⟨-, rfl⟩ := List.cons.inj has
      exact absurd (by simp) hu
  · cases as with
    | nil =>
      cases has
      exact ⟨List.append_nil y, rfl⟩
    | cons a as =>
      obtain ⟨-, rfl⟩ := List.cons.inj has
      exact absurd (by simp) hv

theorem split_first {c : α} {x y u v : List α} (hx : c ∉ x) (hy : c ∉ y)
    (h : x ++ c :: u = y ++ c :: v) : x = y ∧ u = v := by
  have hreverse : u.reverse ++ c :: x.reverse = v.reverse ++ c :: y.reverse := by
    simpa using congrArg List.reverse h
  obtain ⟨hrest, hfirst⟩ :=
    split_last (mt List.mem_reverse.mp hx) (mt List.mem_reverse.mp hy) hreverse
  exact ⟨List.reverse_injective hfirst, List.reverse_injective hrest⟩

theorem exists_last_split {c : α} (h : c ∈ l) : ∃ x u, l = x ++ c :: u ∧ c ∉ u := by
  obtain ⟨u, x, hsplit, hu⟩ := List.eq_append_cons_of_mem (List.mem_reverse.mpr h)
  refine ⟨x.reverse, u.reverse, ?_, fun hmem => hu (List.mem_reverse.mp hmem)⟩
  simpa using congrArg List.reverse hsplit

theorem unlines_append (ls ms : List (List α)) :
    unlines sep (ls ++ ms) = unlines sep ls ++ unlines sep ms := by
  induction ls with
  | nil => rfl
  | cons l ls ih => rw [List.cons_append, unlines, ih, unlines, List.append_assoc, List.cons_append]

theorem length_unlines_take (sep : α) {k : Nat} (h : ls[k]? = some l) :
    (unlines sep (ls.take k)).length + l.length + 1 ≤ (unlines sep ls).length := by
  obtain ⟨hk, rfl⟩ := List.getElem?_eq_some_iff.mp h
  have hsplit : ls = ls.take k ++ ls[k] :: ls.drop (k + 1) := by
    rw [List.getElem_cons_drop, List.take_append_drop]
  have hlength := congrArg (fun ls => (unlines sep ls).length) hsplit
  simp only [unlines_append, unlines, List.length_append, List.length_cons] at hlength
  omega

theorem length_unlines_lt (sep : α) {j k : Nat} (h : ls[j]? = some l) (hjk : j < k) :
    (unlines sep (ls.take j)).length + l.length < (unlines sep (ls.take k)).length := by
  have htake : (ls.take k)[j]? = some l := (List.getElem?_take_of_lt hjk).trans h
  have hlength := length_unlines_take sep htake
  rwa [List.take_take, Nat.min_eq_left (Nat.le_of_lt hjk)] at hlength

/-- A text that is cut off has all its lines, or the first ones and a part of the next. -/
theorem cut_cases (sep : α) (n : Nat) (ls : List (List α)) :
    (cut n ls = ls ∧ (unlines sep ls).length ≤ n) ∨
    ∃ m l, ls[m]? = some l ∧ (unlines sep (ls.take m)).length ≤ n ∧
      n ≤ (unlines sep (ls.take m)).length + l.length ∧
      cut n ls = ls.take m ++ if l.take (n - (unlines sep (ls.take m)).length) = [] then []
        else [l.take (n - (unlines sep (ls.take m)).length)] := by
  induction ls generalizing n with
  | nil => exact .inl ⟨rfl, Nat.zero_le n⟩
  | cons l ls ih =>
    by_cases hn : l.length < n
    · have hlength : ∀ ms, (unlines sep (l :: ms)).length =
          l.length + 1 + (unlines sep ms).length := by
        intro ms
        rw [unlines, List.length_append, List.length_cons]
        omega
      rw [cut, if_pos hn]
      obtain ⟨hall, hfits⟩ | ⟨m, l', hget, hstart, hend, hcut⟩ := ih (n - (l.length + 1))
      · refine .inl ⟨congrArg _ hall, ?_⟩
        rw [hlength]
        omega
      · refine .inr ⟨m + 1, l', hget, ?_⟩
        rw [List.take_succ_cons, hlength, hcut, Nat.sub_sub, List.cons_append]
        exact ⟨by omega, by omega, rfl⟩
    · refine .inr ⟨0, l, rfl, Nat.zero_le n, ?_, ?_⟩
      · rw [List.take_zero, unlines, List.length_nil]
        omega
      · rw [cut, if_neg hn]
        rfl

section Splitting

variable [DecidableEq α]

theorem lines_append_sep (hl : sep ∉ l) (rest : List α) :
    lines sep (l ++ sep :: rest) = l :: lines sep rest := by
  induction l with
  | nil => simp [lines]
  | cons x l ih =>
    obtain ⟨hx, hl⟩ := not_or.mp (mt List.mem_cons.mpr hl)
    rw [List.cons_append, lines, if_neg (Ne.symm hx), ih hl]

theorem lines_of_notMem (hl : sep ∉ l) : lines sep l = if l = [] then [] else [l] := by
  induction l with
  | nil => rfl
  | cons x l ih =>
    obtain ⟨hx, hl⟩ := not_or.mp (mt List.mem_cons.mpr hl)
    rw [lines, if_neg (Ne.symm hx), ih hl, if_neg (List.cons_ne_nil x l)]
    by_cases hnil : l = []
    · simp [hnil]
    · simp [hnil]

theorem notMem_of_mem_lines {text : List α} (h : l ∈ lines sep text) : sep ∉ l := by
  induction text generalizing l with
  | nil => cases h
  | cons x text ih =>
    rw [lines] at h
    split at h
    · obtain rfl | h := List.mem_cons.mp h
      · exact List.not_mem_nil
      · exact ih h
    · rename_i hx
      cases hrest : lines sep text with
      | nil =>
        rw [hrest] at h
        obtain rfl := List.mem_singleton.mp h
        simpa using Ne.symm hx
      | cons first rest =>
        rw [hrest] at h
        obtain rfl | h := List.mem_cons.mp h
        · have hfirst : sep ∉ first := ih (hrest ▸ List.mem_cons_self)
          simpa using ⟨Ne.symm hx, hfirst⟩
        · exact ih (hrest ▸ List.mem_cons_of_mem first h)

theorem lines_take_unlines (h : ∀ l ∈ ls, sep ∉ l) (n : Nat) :
    lines sep ((unlines sep ls).take n) = cut n ls := by
  induction ls generalizing n with
  | nil => simp [unlines, lines, cut]
  | cons l ls ih =>
    obtain ⟨hl, hls⟩ := List.forall_mem_cons.mp h
    by_cases hn : l.length < n
    · obtain ⟨m, rfl⟩ := Nat.exists_eq_add_of_lt hn
      have htake : (unlines sep (l :: ls)).take (l.length + m + 1) =
          l ++ sep :: (unlines sep ls).take m := by
        rw [unlines, Nat.add_assoc, List.take_length_add_append, List.take_succ_cons]
      have hm : l.length + m + 1 - (l.length + 1) = m := by omega
      rw [htake, lines_append_sep hl, ih hls, cut, if_pos hn, hm]
    · have htake : (unlines sep (l :: ls)).take n = l.take n :=
        List.take_append_of_le_length (Nat.not_lt.mp hn)
      have hmem : sep ∉ l.take n := fun hmem => hl (List.mem_of_mem_take hmem)
      rw [htake, lines_of_notMem hmem, cut, if_neg hn]

end Splitting

section Reading

variable {ε σ : Type*} (read : Nat → List α → σ → Except ε σ)

/-- Read lines one after the other, each by its number. -/
def readFrom : Nat → List (List α) → σ → Except ε σ
  | _, [], s => .ok s
  | k, l :: ls, s =>
    match read k l s with
    | .ok s' => readFrom (k + 1) ls s'
    | .error e => .error e

variable {read} {states : Nat → σ}

theorem readFrom_append {k : Nat} {s t : σ} (h : readFrom read k ls s = .ok t)
    (ms : List (List α)) :
    readFrom read k (ls ++ ms) s = readFrom read (k + ls.length) ms t := by
  induction ls generalizing k s with
  | nil =>
    cases h
    rfl
  | cons l ls ih =>
    cases hl : read k l s with
    | error e => simp [readFrom, hl] at h
    | ok s' =>
      simp only [readFrom, hl] at h
      simp only [List.cons_append, readFrom, hl, ih h, List.length_cons]
      rw [Nat.add_assoc, Nat.add_comm 1]

theorem states_idle {k m : Nat} (hm : m ≤ k)
    (h : ∀ j, m ≤ j → j < k → states (j + 1) = states j) : states k = states m := by
  induction hm with
  | refl => rfl
  | @step k hm ih =>
    exact (h k hm k.lt_succ_self).trans (ih fun j hj hk => h j hj (Nat.lt_succ_of_lt hk))

section States

variable (hread : ∀ j l, ls[j]? = some l → read j l (states j) = .ok (states (j + 1)))
include hread

theorem readFrom_take {m : Nat} (hm : m ≤ ls.length) :
    readFrom read 0 (ls.take m) (states 0) = .ok (states m) := by
  induction m with
  | zero => rfl
  | succ m ih =>
    have hget : ls[m]? = some ls[m] := List.getElem?_eq_getElem hm
    have hlength : (ls.take m).length = m := List.length_take_of_le (Nat.le_of_succ_le hm)
    rw [List.take_add_one, hget, readFrom_append (ih (Nat.le_of_succ_le hm)), hlength, Nat.zero_add]
    simp only [Option.toList_some, readFrom, hread m _ hget]

theorem readFrom_take_append {m : Nat} (hm : m ≤ ls.length) (l : List α) :
    readFrom read 0 (ls.take m ++ [l]) (states 0) = read m l (states m) := by
  rw [readFrom_append (readFrom_take hread hm), List.length_take_of_le hm, Nat.zero_add, readFrom]
  cases read m l (states m) <;> rfl

/-- A reader that goes through given states as it reads whole lines comes to the
last of them on a text that is cut off, if what is missing is idle: the cut-off
lines are short and reading them changes nothing. -/
theorem readFrom_cut (sep : α) (idle : Nat → Prop) {n : Nat}
    (hempty : ∀ j, ls[j]? = some [] → states (j + 1) = states j)
    (hidle : ∀ j l, ls[j]? = some l → idle j → l.length ≤ 1 ∧ states (j + 1) = states j)
    (hin : ∀ j l, ls[j]? = some l → ¬idle j →
      (unlines sep (ls.take j)).length + l.length ≤ n) :
    readFrom read 0 (cut n ls) (states 0) = .ok (states ls.length) := by
  obtain ⟨hall, -⟩ | ⟨m, l, hget, hstart, hend, hcut⟩ := cut_cases sep n ls
  · rw [hall]
    simpa using readFrom_take hread (Nat.le_refl _)
  · have hm : m < ls.length := (List.getElem?_eq_some_iff.mp hget).1
    have hrest : states ls.length = states (m + 1) := by
      refine states_idle hm ?_
      intro j hj hlt
      have hgetj : ls[j]? = some ls[j] := List.getElem?_eq_getElem hlt
      refine (hidle j _ hgetj ?_).2
      by_contra hid
      have hfits := hin j _ hgetj hid
      have hafter := length_unlines_lt sep hget hj
      omega
    rw [hcut, hrest]
    by_cases hnil : l.take (n - (unlines sep (ls.take m)).length) = []
    · have hsame : states (m + 1) = states m := by
        by_cases hid : idle m
        · exact (hidle m l hget hid).2
        · have hfits := hin m l hget hid
          rw [List.take_of_length_le (by omega)] at hnil
          exact hempty m (hnil ▸ hget)
      rw [if_pos hnil, List.append_nil, hsame]
      exact readFrom_take hread (Nat.le_of_lt hm)
    · have hwhole : l.take (n - (unlines sep (ls.take m)).length) = l := by
        apply List.take_of_length_le
        by_cases hid : idle m
        · have hshort := (hidle m l hget hid).1
          have hpos : n - (unlines sep (ls.take m)).length ≠ 0 := by
            intro hzero
            exact hnil (hzero ▸ List.take_zero)
          omega
        · have hfits := hin m l hget hid
          omega
      rw [if_neg hnil, hwhole, readFrom_take_append hread (Nat.le_of_lt hm)]
      exact hread m l hget

/-- A text that is cut off before the end of a line leaves the reader in the state of
an earlier line, or after the part of a line. -/
theorem readFrom_cut_cases {n k : Nat} {s : σ} (h : readFrom read 0 (cut n ls) (states 0) = .ok s)
    (hk : ls[k]? = some l) (hout : n < (unlines sep (ls.take k)).length + l.length) :
    (∃ m ≤ k, s = states m) ∨
    ∃ m l' part, ls[m]? = some l' ∧ part <+: l' ∧ part ≠ [] ∧ part ≠ l' ∧
      read m part (states m) = .ok s := by
  obtain ⟨-, hfits⟩ | ⟨m, l', hget, hstart, hend, hcut⟩ := cut_cases sep n ls
  · have hlt := length_unlines_take sep hk
    omega
  have hm : m < ls.length := (List.getElem?_eq_some_iff.mp hget).1
  have hmk : m ≤ k := by
    by_contra hlt
    have hbefore := length_unlines_lt sep hk (Nat.not_le.mp hlt)
    omega
  rw [hcut] at h
  by_cases hnil : l'.take (n - (unlines sep (ls.take m)).length) = []
  · rw [if_pos hnil, List.append_nil, readFrom_take hread (Nat.le_of_lt hm)] at h
    cases h
    exact .inl ⟨m, hmk, rfl⟩
  rw [if_neg hnil, readFrom_take_append hread (Nat.le_of_lt hm)] at h
  by_cases hwhole : l'.take (n - (unlines sep (ls.take m)).length) = l'
  · rw [hwhole, hread m l' hget] at h
    cases h
    refine .inl ⟨m + 1, Nat.lt_of_le_of_ne hmk ?_, rfl⟩
    rintro rfl
    cases hget.symm.trans hk
    have hlength := congrArg List.length hwhole
    rw [List.length_take] at hlength
    omega
  · exact .inr ⟨m, l', _, hget, List.take_prefix _ _, hnil, hwhole, h⟩

end States

end Reading

end Mprpc.Library.Lines
