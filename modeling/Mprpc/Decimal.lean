import Mathlib.Data.List.TakeWhile
import Mathlib.Tactic.IntervalCases
import Mprpc.Transport

namespace Mprpc.Decimal

open Transport

/-- The text that `std::to_string` gives for a number. -/
def decimal (n : Nat) : Text := text (toString n)

def valueOf (digits : Text) : Nat := digits.foldl (fun v c => 10 * v + (c.toNat - 48)) 0

theorem text_append (s t : String) : text (s ++ t) = text s ++ text t := by
  simp [text]

theorem decimal_of_lt {n : Nat} (h : n < 10) : decimal n = [48 + n.toUInt8] := by
  interval_cases n <;> decide

theorem decimal_of_ge {n : Nat} (h : 10 ≤ n) :
    decimal n = decimal (n / 10) ++ decimal (n % 10) := by
  have hrepr := Nat.repr_eq_repr_append_repr h
  change text n.repr = text (n / 10).repr ++ text (n % 10).repr
  rw [hrepr, text_append]

theorem digit_of_mem_decimal {n : Nat} {c : UInt8} (hc : c ∈ decimal n) :
    48 ≤ c.toNat ∧ c.toNat ≤ 57 := by
  induction n using Nat.strongRecOn with
  | _ n ih =>
    by_cases h : n < 10
    · rw [decimal_of_lt h] at hc
      interval_cases n <;> simp at hc <;> subst hc <;> decide
    · rw [decimal_of_ge (not_lt.mp h)] at hc
      obtain hc | hc := List.mem_append.mp hc
      · exact ih (n / 10) (by omega) hc
      · exact ih (n % 10) (by omega) hc

theorem valueOf_append_digit (digits : Text) {d : Nat} (h : d < 10) :
    valueOf (digits ++ decimal d) = 10 * valueOf digits + d := by
  rw [decimal_of_lt h, valueOf, List.foldl_append]
  interval_cases d <;> rfl

theorem valueOf_decimal (n : Nat) : valueOf (decimal n) = n := by
  induction n using Nat.strongRecOn with
  | _ n ih =>
    by_cases h : n < 10
    · exact (valueOf_append_digit [] h).trans (by simp [valueOf])
    · rw [decimal_of_ge (not_lt.mp h), valueOf_append_digit _ (Nat.mod_lt _ (by decide)),
        ih _ (by omega)]
      omega

theorem decimal_injective : Function.Injective decimal := by
  intro m n h
  rw [← valueOf_decimal m, h, valueOf_decimal]

theorem decimal_ne_nil (n : Nat) : decimal n ≠ [] := by
  by_cases h : n < 10
  · rw [decimal_of_lt h]
    exact List.cons_ne_nil _ _
  · rw [decimal_of_ge (not_lt.mp h)]
    have hlast : decimal (n % 10) ≠ [] := by
      rw [decimal_of_lt (Nat.mod_lt n (by decide))]
      exact List.cons_ne_nil _ _
    exact fun hnil => hlast (List.append_eq_nil_iff.mp hnil).2

/-- The text that `std::to_string` gives for an `int`. -/
def decimalInt : Int → Text
  | .ofNat n => decimal n
  | .negSucc n => 45 :: decimal (n + 1)

/-- What a conversion from text throws: `std::invalid_argument` or `std::out_of_range`. -/
inductive NumberError
  | invalidArgument
  | outOfRange
deriving DecidableEq, Repr

def isspace (c : UInt8) : Bool := c = 32 || (9 ≤ c && c ≤ 13)

def isdigit (c : UInt8) : Bool := 48 ≤ c && c ≤ 57

/-- An optional sign: whether it is a minus, and the text after it. -/
def sign : Text → Bool × Text
  | 45 :: rest => (true, rest)
  | 43 :: rest => (false, rest)
  | s => (false, s)

/-- The number at the start of a text, as `strtol` and `strtoull` read it in base
ten: white space, a sign, digits. What follows them is not looked at. -/
def number (s : Text) : Option (Bool × Nat) :=
  let (negative, rest) := sign (s.dropWhile isspace)
  let digits := rest.takeWhile isdigit
  if digits = [] then none else some (negative, valueOf digits)

def stoi (s : Text) : Except NumberError Int :=
  match number s with
  | none => .error .invalidArgument
  | some (negative, n) =>
    let value : Int := if negative then -n else n
    if value < -2 ^ 31 ∨ 2 ^ 31 ≤ value then .error .outOfRange else .ok value

/-- A minus sign is accepted, and the number negated modulo `2 ^ 64`. -/
def stoull (s : Text) : Except NumberError UInt64 :=
  match number s with
  | none => .error .invalidArgument
  | some (negative, n) =>
    if 2 ^ 64 ≤ n then .error .outOfRange
    else .ok (if negative then -(UInt64.ofNat n) else UInt64.ofNat n)

theorem isdigit_of_mem {n : Nat} {c : UInt8} (hc : c ∈ decimal n) : isdigit c = true := by
  obtain ⟨hlo, hhi⟩ := digit_of_mem_decimal hc
  simp only [isdigit, Bool.and_eq_true, decide_eq_true_eq, UInt8.le_iff_toNat_le]
  exact ⟨hlo, hhi⟩

theorem takeWhile_decimal (n : Nat) : (decimal n).takeWhile isdigit = decimal n :=
  List.takeWhile_eq_self_iff.mpr fun _ => isdigit_of_mem

theorem number_decimal (n : Nat) : number (decimal n) = some (false, n) := by
  obtain ⟨d, ds, hd⟩ := List.exists_cons_of_ne_nil (decimal_ne_nil n)
  obtain ⟨hlo, hhi⟩ := digit_of_mem_decimal (n := n) (c := d) (by simp [hd])
  have hspace : isspace d = false := by
    have h32 : d ≠ 32 := by
      rintro rfl
      exact absurd hlo (by decide)
    have h13 : ¬d ≤ 13 := by
      rw [UInt8.le_iff_toNat_le]
      exact Nat.not_le.mpr (Nat.lt_of_lt_of_le (by decide) hlo)
    simp [isspace, h32, h13]
  have hsign : sign (d :: ds) = (false, d :: ds) := by
    have h45 : d ≠ 45 := by
      rintro rfl
      exact absurd hlo (by decide)
    have h43 : d ≠ 43 := by
      rintro rfl
      exact absurd hlo (by decide)
    simp [sign, h45, h43]
  have hdrop : (decimal n).dropWhile isspace = decimal n := by
    rw [hd, List.dropWhile_cons_of_neg (by simp [hspace])]
  rw [number, hdrop, hd, hsign, ← hd]
  simp only [takeWhile_decimal, if_neg (decimal_ne_nil n), valueOf_decimal]

theorem number_minus (n : Nat) : number (45 :: decimal n) = some (true, n) := by
  have hdrop : (45 :: decimal n).dropWhile isspace = 45 :: decimal n :=
    List.dropWhile_cons_of_neg (by decide)
  rw [number, hdrop, sign]
  simp only [takeWhile_decimal, if_neg (decimal_ne_nil n), valueOf_decimal]

theorem stoi_decimal {n : Nat} (h : n < 2 ^ 31) : stoi (decimal n) = .ok (n : Int) := by
  have hrange : ¬((n : Int) < -2 ^ 31 ∨ 2 ^ 31 ≤ (n : Int)) := by omega
  simp only [stoi, number_decimal, Bool.false_eq_true, if_false, if_neg hrange]

theorem stoi_decimalInt {w : Int} (hlo : -2 ^ 31 ≤ w) (hhi : w < 2 ^ 31) :
    stoi (decimalInt w) = .ok w := by
  cases w with
  | ofNat n =>
    have hn : (n : Int) < 2 ^ 31 := hhi
    exact stoi_decimal (by omega)
  | negSucc n =>
    have hvalue : -((n + 1 : Nat) : Int) = Int.negSucc n := rfl
    have hrange : ¬(Int.negSucc n < -2 ^ 31 ∨ 2 ^ 31 ≤ Int.negSucc n) := by omega
    simp only [stoi, decimalInt, number_minus, if_true, hvalue, if_neg hrange]

theorem stoull_decimal (n : UInt64) : stoull (decimal n.toNat) = .ok n := by
  have hrange : ¬2 ^ 64 ≤ n.toNat := Nat.not_le.mpr n.toNat_lt
  simp only [stoull, number_decimal, Bool.false_eq_true, if_false, if_neg hrange,
    UInt64.ofNat_toNat]

/-- What is left of the digits of a number when the last ones are cut off are the
digits of a number that is not larger. -/
theorem decimal_of_prefix {n : Nat} {part : Text} (h : part <+: decimal n) (hne : part ≠ []) :
    ∃ m ≤ n, part = decimal m ∧ (0 < n → 0 < m) := by
  induction n using Nat.strongRecOn with
  | _ n ih =>
    by_cases hn : n < 10
    · refine ⟨n, Nat.le_refl n, ?_, id⟩
      rw [decimal_of_lt hn] at h ⊢
      exact h.eq_of_length (Nat.le_antisymm h.length_le (List.length_pos_iff.mpr hne))
    · have hge : 10 ≤ n := Nat.not_lt.mp hn
      have hlast : n % 10 < 10 := Nat.mod_lt n (by decide)
      have hsplit := h
      rw [decimal_of_ge hge, decimal_of_lt hlast, List.prefix_concat_iff] at hsplit
      obtain hwhole | hpart := hsplit
      · refine ⟨n, Nat.le_refl n, ?_, id⟩
        rw [decimal_of_ge hge, decimal_of_lt hlast]
        exact hwhole
      · obtain ⟨m, hm, rfl, hpos⟩ := ih (n / 10) (by omega) hpart
        exact ⟨m, by omega, rfl, fun _ => hpos (by omega)⟩

/-- A number that is read from a part of its text is another one. -/
theorem stoi_part {w v : Int} {part : Text} (hlo : -2 ^ 31 ≤ w) (hhi : w < 2 ^ 31)
    (hpart : part <+: decimalInt w) (hne : part ≠ []) (h : stoi part = .ok v) :
    part = decimalInt v := by
  cases w with
  | ofNat n =>
    obtain ⟨m, hm, rfl, -⟩ := decimal_of_prefix hpart hne
    have hn : (n : Int) < 2 ^ 31 := hhi
    have hread : stoi (decimal m) = .ok (m : Int) := stoi_decimal (by omega)
    cases hread.symm.trans h
    rfl
  | negSucc n =>
    obtain ⟨rest, rfl, hrest⟩ : ∃ rest, part = 45 :: rest ∧ rest <+: decimal (n + 1) := by
      obtain hnil | ⟨rest, hcons, hrest⟩ := List.prefix_cons_iff.mp hpart
      · exact absurd hnil hne
      · exact ⟨rest, hcons, hrest⟩
    by_cases hnil : rest = []
    · subst hnil
      cases h
    · obtain ⟨m, hm, rfl, hpos⟩ := decimal_of_prefix hrest hnil
      obtain ⟨k, rfl⟩ := Nat.exists_eq_add_one.mpr (hpos (Nat.succ_pos n))
      have hlow : -2 ^ 31 ≤ Int.negSucc k := by omega
      have hread := stoi_decimalInt hlow (by omega)
      cases hread.symm.trans h
      rfl

theorem stoull_part {n v : UInt64} {part : Text} (hpart : part <+: decimal n.toNat)
    (hne : part ≠ []) (h : stoull part = .ok v) : part = decimal v.toNat := by
  obtain ⟨m, hm, rfl, -⟩ := decimal_of_prefix hpart hne
  have hlt : m < 2 ^ 64 := lt_of_le_of_lt hm n.toNat_lt
  have hread := stoull_decimal (UInt64.ofNat m)
  rw [UInt64.toNat_ofNat_of_lt' hlt] at hread
  cases hread.symm.trans h
  rw [UInt64.toNat_ofNat_of_lt' hlt]

theorem decimalInt_ne_nil (w : Int) : decimalInt w ≠ [] := by
  cases w with
  | ofNat n => exact decimal_ne_nil n
  | negSucc n => exact List.cons_ne_nil _ _

theorem newline_notMem_decimal (n : Nat) : (10 : UInt8) ∉ decimal n := by
  intro h
  exact absurd (digit_of_mem_decimal h).1 (by decide)

theorem newline_notMem_decimalInt (w : Int) : (10 : UInt8) ∉ decimalInt w := by
  cases w with
  | ofNat n => exact newline_notMem_decimal n
  | negSucc n =>
    intro h
    cases List.mem_cons.mp h with
    | inl h => cases h
    | inr h => exact newline_notMem_decimal _ h

end Mprpc.Decimal
