import Mathlib.Data.List.Nodup

namespace Mprpc.Library

/-- A map from names in which the first entry under a name stays until it is removed. -/
structure NameTable (κ ν : Type*) where
  entries : List (κ × ν)
  distinct : (entries.map Prod.fst).Nodup

namespace NameTable

variable {κ ν : Type*}

def empty : NameTable κ ν := ⟨[], .nil⟩

def names (t : NameTable κ ν) : List κ := t.entries.map Prod.fst

variable [DecidableEq κ]

def find (k : κ) (t : NameTable κ ν) : Option ν :=
  (t.entries.find? fun e => e.1 = k).map Prod.snd

/-- What is there already is not replaced. -/
def add (k : κ) (v : ν) (t : NameTable κ ν) : Bool × NameTable κ ν :=
  if h : k ∈ t.names then (false, t)
  else
    (true, {
      entries := t.entries ++ [(k, v)]
      distinct := by
        rw [List.map_append]
        refine List.nodup_append.mpr ⟨t.distinct, List.nodup_singleton k, ?_⟩
        intro a ha b hb hab
        obtain rfl := List.mem_singleton.mp hb
        exact h (hab ▸ ha) })

def remove (k : κ) (t : NameTable κ ν) : Bool × NameTable κ ν :=
  if k ∈ t.names then
    (true, ⟨t.entries.filter (·.1 ≠ k), t.distinct.sublist (List.filter_sublist.map _)⟩)
  else (false, t)

/-- The entry is made, or changed when there is one. -/
def put (k : κ) (v : ν) (t : NameTable κ ν) : NameTable κ ν := ((t.remove k).2.add k v).2

variable {k k' : κ} {v : ν} {t : NameTable κ ν}

theorem find_empty (k : κ) : (empty : NameTable κ ν).find k = none := rfl

theorem find_eq_none : t.find k = none ↔ k ∉ t.names := by
  rw [find, Option.map_eq_none_iff, List.find?_eq_none, names, List.mem_map]
  constructor
  · rintro h ⟨e, he, rfl⟩
    exact h e he (decide_eq_true rfl)
  · intro h e he hk
    exact h ⟨e, he, of_decide_eq_true hk⟩

theorem find_add (k : κ) (v : ν) (t : NameTable κ ν) (k' : κ) :
    (t.add k v).2.find k' = (t.find k').or (if k' = k then some v else none) := by
  unfold add
  split
  · rename_i hmem
    by_cases hk : k' = k
    · subst hk
      obtain ⟨w, hw⟩ := Option.ne_none_iff_exists'.mp fun hnone => find_eq_none.mp hnone hmem
      simp [hw]
    · simp [hk]
  · rename_i hmem
    by_cases hk : k' = k
    · subst hk
      have hnone := Option.map_eq_none_iff.mp (find_eq_none.mpr hmem)
      simp [find, List.find?_append, hnone]
    · simp [find, List.find?_append, hk, Ne.symm hk]

theorem find_remove (k : κ) (t : NameTable κ ν) (k' : κ) :
    (t.remove k).2.find k' = if k' = k then none else t.find k' := by
  unfold remove
  split
  · rw [find, List.find?_filter]
    split
    · rename_i hk
      subst hk
      rw [Option.map_eq_none_iff, List.find?_eq_none]
      intro e _
      simp
    · rename_i hk
      rw [find]
      congr 2
      funext e
      by_cases he : e.1 = k'
      · simp [he, hk]
      · simp [he]
  · rename_i hmem
    split
    · rename_i hk
      rw [hk]
      exact find_eq_none.mpr hmem
    · rfl

theorem find_put (k : κ) (v : ν) (t : NameTable κ ν) (k' : κ) :
    (t.put k v).find k' = if k' = k then some v else t.find k' := by
  rw [put, find_add, find_remove]
  by_cases hk : k' = k
  · simp [hk]
  · simp [hk]

/-- Of several entries under one name the first is found. -/
theorem find_addAll (es : List (κ × ν)) (t : NameTable κ ν) (k : κ) :
    (es.foldl (fun t e => (t.add e.1 e.2).2) t).find k =
      (t.find k).or ((es.find? fun e => e.1 = k).map Prod.snd) := by
  induction es generalizing t with
  | nil => simp
  | cons e es ih =>
    rw [List.foldl_cons, ih, find_add, Option.or_assoc]
    congr 1
    by_cases he : e.1 = k
    · rw [if_pos he.symm]
      simp [he]
    · rw [if_neg (Ne.symm he)]
      simp [he]

end NameTable

end Mprpc.Library
