import Mathlib.Order.Lattice
import Mathlib.Data.List.Induction
import Mathlib.Data.List.Nodup

namespace Mprpc.Library

/-- A map kept as its entries in the order of their keys, so that the entries
next to a position can be looked up. -/
structure OrderedMap (κ ν : Type*) [LinearOrder κ] where
  entries : List (κ × ν)
  sorted : entries.Pairwise (·.1 < ·.1)

namespace OrderedMap

variable {κ ν : Type*} [LinearOrder κ]

def insertEntry (k : κ) (v : ν) : List (κ × ν) → List (κ × ν)
  | [] => [(k, v)]
  | e :: es =>
    if k < e.1 then (k, v) :: e :: es
    else if k = e.1 then (k, v) :: es
    else e :: insertEntry k v es

theorem mem_insertEntry {k : κ} {v : ν} {e : κ × ν} {es : List (κ × ν)}
    (hs : es.Pairwise (·.1 < ·.1)) :
    e ∈ insertEntry k v es ↔ e = (k, v) ∨ e ∈ es ∧ e.1 ≠ k := by
  induction es with
  | nil => simp [insertEntry]
  | cons f es ih =>
    obtain ⟨hf, hes⟩ := List.pairwise_cons.mp hs
    have hi := ih hes
    simp only [insertEntry]
    split
    · next hlt =>
      have hne : ∀ x ∈ f :: es, x.1 ≠ k := by
        intro x hx
        obtain rfl | hx := List.mem_cons.mp hx
        · exact hlt.ne'
        · exact (hlt.trans (hf x hx)).ne'
      simp only [List.mem_cons (b := (k, v))]
      constructor
      · rintro (rfl | he)
        · exact .inl rfl
        · exact .inr ⟨he, hne e he⟩
      · rintro (rfl | ⟨he, -⟩)
        · exact .inl rfl
        · exact .inr he
    · next hlt =>
      split
      · next heq =>
        have hne : ∀ x ∈ es, x.1 ≠ k := by
          intro x hx
          rw [heq]
          exact (hf x hx).ne'
        simp only [List.mem_cons]
        constructor
        · rintro (rfl | he)
          · exact .inl rfl
          · exact .inr ⟨.inr he, hne e he⟩
        · rintro (rfl | ⟨rfl | he, hk⟩)
          · exact .inl rfl
          · exact absurd heq.symm hk
          · exact .inr he
      · next hne =>
        simp only [List.mem_cons, hi]
        constructor
        · rintro (rfl | rfl | ⟨he, hk⟩)
          · exact .inr ⟨.inl rfl, fun h => hne h.symm⟩
          · exact .inl rfl
          · exact .inr ⟨.inr he, hk⟩
        · rintro (rfl | ⟨rfl | he, hk⟩)
          · exact .inr (.inl rfl)
          · exact .inl rfl
          · exact .inr (.inr ⟨he, hk⟩)

theorem insertEntry_sorted (k : κ) (v : ν) {es : List (κ × ν)} (hs : es.Pairwise (·.1 < ·.1)) :
    (insertEntry k v es).Pairwise (·.1 < ·.1) := by
  induction es with
  | nil => simp [insertEntry]
  | cons f es ih =>
    obtain ⟨hf, hes⟩ := List.pairwise_cons.mp hs
    simp only [insertEntry]
    split
    · next hlt =>
      refine List.pairwise_cons.mpr ⟨?_, hs⟩
      intro x hx
      obtain rfl | hx := List.mem_cons.mp hx
      · exact hlt
      · exact hlt.trans (hf x hx)
    · next hlt =>
      split
      · next heq =>
        refine List.pairwise_cons.mpr ⟨?_, hes⟩
        intro x hx
        change k < x.1
        rw [heq]
        exact hf x hx
      · next hne =>
        refine List.pairwise_cons.mpr ⟨?_, ih hes⟩
        intro x hx
        obtain rfl | ⟨hx, -⟩ := (mem_insertEntry hes).mp hx
        · exact lt_of_le_of_ne (not_lt.mp hlt) (Ne.symm hne)
        · exact hf x hx

def empty : OrderedMap κ ν := ⟨[], List.Pairwise.nil⟩

def isEmpty (m : OrderedMap κ ν) : Bool := m.entries.isEmpty

/-- Assign to a key, over what it had before. -/
def insert (m : OrderedMap κ ν) (k : κ) (v : ν) : OrderedMap κ ν :=
  ⟨insertEntry k v m.entries, insertEntry_sorted k v m.sorted⟩

/-- The assignments one after the other. -/
def assign (m : OrderedMap κ ν) (es : List (κ × ν)) : OrderedMap κ ν :=
  es.foldl (fun m e => m.insert e.1 e.2) m

/-- The first entry whose key is not below `k`. -/
def lowerBound (m : OrderedMap κ ν) (k : κ) : Option (κ × ν) := m.entries.find? (k ≤ ·.1)

/-- The first entry from `k` on, or the first of all when no key is that large. -/
def around (m : OrderedMap κ ν) (k : κ) : Option (κ × ν) := (m.lowerBound k).or m.entries.head?

variable {m m' : OrderedMap κ ν} {k : κ} {v : ν} {e : κ × ν}

theorem mem_insert : e ∈ (m.insert k v).entries ↔ e = (k, v) ∨ e ∈ m.entries ∧ e.1 ≠ k :=
  mem_insertEntry m.sorted

theorem eq_of_key {f : κ × ν} (he : e ∈ m.entries) (hf : f ∈ m.entries) (h : e.1 = f.1) :
    e = f := by
  have hkeys : (m.entries.map Prod.fst).Nodup :=
    List.pairwise_map.mpr (m.sorted.imp fun hlt => hlt.ne)
  exact List.inj_on_of_nodup_map hkeys he hf h

/-- Going up from `k` and around, `a` comes no later than `b`. -/
def NoLater (k a b : κ) : Prop := (k ≤ b → k ≤ a ∧ a ≤ b) ∧ (b < k → k ≤ a ∨ a ≤ b)

theorem NoLater.antisymm {a b : κ} (hab : NoLater k a b) (hba : NoLater k b a) : a = b := by
  by_cases hb : k ≤ b
  · obtain ⟨ha, h⟩ := hab.1 hb
    exact le_antisymm h (hba.1 ha).2
  · by_cases ha : k ≤ a
    · exact absurd (hba.1 ha).1 hb
    · have h := (hab.2 (not_le.mp hb)).resolve_left ha
      exact le_antisymm h ((hba.2 (not_le.mp ha)).resolve_left hb)

theorem around_noLater (h : m.around k = some e) :
    e ∈ m.entries ∧ ∀ f ∈ m.entries, NoLater k e.1 f.1 := by
  cases hl : m.lowerBound k with
  | some e' =>
    have he : e' = e := by simpa [around, hl] using h
    subst he
    obtain ⟨hk, before, after, hsplit, hbefore⟩ := List.find?_eq_some_iff_append.mp hl
    have hk' : k ≤ e'.1 := by simpa using hk
    refine ⟨by simp [hsplit], ?_⟩
    intro f hf
    refine ⟨fun hkf => ⟨hk', ?_⟩, fun _ => .inl hk'⟩
    have hs := m.sorted
    rw [hsplit] at hf hs
    obtain hf | hf := List.mem_append.mp hf
    · exact absurd hkf (by simpa using hbefore f hf)
    · obtain rfl | hf := List.mem_cons.mp hf
      · exact le_rfl
      · exact (List.pairwise_cons.mp (List.pairwise_append.mp hs).2.1).1 f hf |>.le
  | none =>
    have hh : m.entries.head? = some e := by simpa [around, hl] using h
    obtain ⟨es, hes⟩ := List.head?_eq_some_iff.mp hh
    have hlt : ∀ f ∈ m.entries, f.1 < k := by simpa [lowerBound] using hl
    have hs := m.sorted
    rw [hes] at hs
    refine ⟨by simp [hes], ?_⟩
    intro f hf
    refine ⟨fun hkf => absurd hkf (not_le.mpr (hlt f hf)), fun _ => .inr ?_⟩
    rw [hes] at hf
    obtain rfl | hf := List.mem_cons.mp hf
    · exact le_rfl
    · exact ((List.pairwise_cons.mp hs).1 f hf).le

theorem around_eq_none : m.around k = none ↔ m.entries = [] := by
  constructor
  · intro h
    cases hl : m.lowerBound k with
    | some e => simp [around, hl] at h
    | none => simpa [around, hl] using h
  · intro h
    simp [around, lowerBound, h]

theorem around_eq_some :
    m.around k = some e ↔ e ∈ m.entries ∧ ∀ f ∈ m.entries, NoLater k e.1 f.1 := by
  refine ⟨around_noLater, ?_⟩
  rintro ⟨he, hfirst⟩
  cases h : m.around k with
  | none =>
    rw [around_eq_none.mp h] at he
    cases he
  | some f =>
    obtain ⟨hf, hfirst'⟩ := around_noLater h
    rw [eq_of_key hf he ((hfirst' e he).antisymm (hfirst f hf))]

/-- An entry found stays the one found when the map loses other entries. -/
theorem around_of_keys_subset (h : m.around k = some e) (he : e ∈ m'.entries)
    (hsub : ∀ f ∈ m'.entries, ∃ g ∈ m.entries, g.1 = f.1) : m'.around k = some e := by
  refine around_eq_some.mpr ⟨he, ?_⟩
  intro f hf
  obtain ⟨g, hg, hkey⟩ := hsub f hf
  rw [← hkey]
  exact (around_noLater h).2 g hg

theorem mem_assign_empty {es : List (κ × ν)} :
    e ∈ (empty.assign es).entries ↔ es.reverse.find? (·.1 = e.1) = some e := by
  induction es using List.reverseRecOn with
  | nil => simp [assign, empty]
  | append_singleton es f ih =>
    have hstep : (empty.assign (es ++ [f])) = (empty.assign es).insert f.1 f.2 := by
      simp [assign, List.foldl_append]
    rw [hstep, mem_insert, ih, List.reverse_append, List.reverse_singleton, List.singleton_append,
      List.find?_cons]
    by_cases hk : f.1 = e.1
    · rw [← hk]
      simp [eq_comm]
    · have hne : e ≠ f := fun h => hk (h ▸ rfl)
      simp [hk, hne, Ne.symm hk]

theorem exists_mem_assign_empty {es : List (κ × ν)} (he : e ∈ es) :
    ∃ f ∈ (empty.assign es).entries, f.1 = e.1 := by
  cases h : es.reverse.find? (·.1 = e.1) with
  | none =>
    rw [List.find?_eq_none] at h
    simpa using h e (List.mem_reverse.mpr he)
  | some f =>
    have hk : f.1 = e.1 := by simpa using List.find?_some h
    exact ⟨f, mem_assign_empty.mpr (by rw [hk]; exact h), hk⟩

theorem around_assign_eq_none {es : List (κ × ν)} :
    (empty.assign es).around k = none ↔ es = [] := by
  rw [around_eq_none]
  constructor
  · intro h
    rw [List.eq_nil_iff_forall_not_mem]
    intro e he
    obtain ⟨f, hf, -⟩ := exists_mem_assign_empty he
    rw [h] at hf
    cases hf
  · rintro rfl
    rfl

/-- What is found is one of the assignments, and none of them comes before it. -/
theorem around_assign {es : List (κ × ν)} (h : (empty.assign es).around k = some e) :
    e ∈ es ∧ ∀ f ∈ es, NoLater k e.1 f.1 := by
  obtain ⟨he, hfirst⟩ := around_noLater h
  refine ⟨List.mem_reverse.mp (List.mem_of_find?_eq_some (mem_assign_empty.mp he)), ?_⟩
  intro f hf
  obtain ⟨g, hg, hkey⟩ := exists_mem_assign_empty hf
  rw [← hkey]
  exact hfirst g hg

/-- Of two groups of assignments to a key the later one decides. -/
theorem mem_later_of_assign {es fs : List (κ × ν)} {f : κ × ν}
    (he : e ∈ (empty.assign (es ++ fs)).entries) (hf : f ∈ fs) (hkey : f.1 = e.1) : e ∈ fs := by
  have hfind := mem_assign_empty.mp he
  rw [List.reverse_append, List.find?_append] at hfind
  cases hlater : fs.reverse.find? (·.1 = e.1) with
  | none =>
    rw [List.find?_eq_none] at hlater
    exact absurd (decide_eq_true hkey) (hlater f (List.mem_reverse.mpr hf))
  | some g =>
    rw [hlater, Option.some_or] at hfind
    cases hfind
    exact List.mem_reverse.mp (List.mem_of_find?_eq_some hlater)

theorem find?_filter_of_find? {α : Type*} {p q : α → Bool} {a : α} {xs : List α}
    (h : xs.find? p = some a) (hq : q a) : (xs.filter q).find? p = some a := by
  induction xs with
  | nil => cases h
  | cons x xs ih =>
    rw [List.find?_cons] at h
    cases hp : p x with
    | true =>
      rw [hp] at h
      cases h
      simp [hq, hp]
    | false =>
      rw [hp] at h
      have hi := ih h
      cases hx : q x <;> simp [hx, hp, hi]

/-- Leaving out assignments does not change what is found, as long as the one
found is kept. -/
theorem around_assign_filter {q : κ × ν → Bool} {es : List (κ × ν)}
    (h : (empty.assign es).around k = some e) (hq : q e) :
    (empty.assign (es.filter q)).around k = some e := by
  have he : es.reverse.find? (·.1 = e.1) = some e := mem_assign_empty.mp (around_noLater h).1
  apply around_of_keys_subset h
  · rw [mem_assign_empty, ← List.filter_reverse]
    exact find?_filter_of_find? he hq
  · intro f hf
    have hmem := List.mem_of_find?_eq_some (mem_assign_empty.mp hf)
    have hin : f ∈ es := (List.mem_filter.mp (List.mem_reverse.mp hmem)).1
    exact exists_mem_assign_empty hin

end OrderedMap

end Mprpc.Library
