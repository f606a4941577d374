import Mathlib.Data.List.Nodup
import Mathlib.Logic.Function.Basic

namespace Mprpc.Library

/-- A lock that any number of threads can hold together, or one alone. -/
structure SharedMutex (ι : Type*) where
  shared : List ι
  exclusive : Option ι

namespace SharedMutex

/-- How a thread holds the lock. -/
inductive Mode
  | free
  | shared
  | exclusive
deriving DecidableEq, Repr

variable {ι : Type*}

def unlocked : SharedMutex ι := ⟨[], none⟩

def lockShared [DecidableEq ι] (i : ι) (m : SharedMutex ι) : Option (SharedMutex ι) :=
  if m.exclusive = none then some { m with shared := i :: m.shared } else none

def unlockShared [DecidableEq ι] (i : ι) (m : SharedMutex ι) : SharedMutex ι :=
  { m with shared := m.shared.erase i }

def lock [DecidableEq ι] (i : ι) (m : SharedMutex ι) : Option (SharedMutex ι) :=
  if m.exclusive = none ∧ m.shared = [] then some { m with exclusive := some i } else none

def unlock (m : SharedMutex ι) : SharedMutex ι := { m with exclusive := none }

/-- The lock knows how each thread holds it, and no thread holds it beside one that
holds it alone. -/
structure Guards (m : SharedMutex ι) (mode : ι → Mode) : Prop where
  shared : ∀ i, i ∈ m.shared ↔ mode i = .shared
  nodup : m.shared.Nodup
  exclusive : ∀ i, m.exclusive = some i ↔ mode i = .exclusive
  apart : m.exclusive ≠ none → m.shared = []

theorem unlocked_guards : Guards (unlocked : SharedMutex ι) fun _ => .free := by
  refine ⟨?_, .nil, ?_, fun _ => rfl⟩
  · intro i
    simp [unlocked]
  · intro i
    simp [unlocked]

variable [DecidableEq ι] {m n : SharedMutex ι} {mode : ι → Mode} {i j : ι}

theorem Guards.lockShared (h : Guards m mode) (hi : mode i = .free)
    (hlock : m.lockShared i = some n) : Guards n (Function.update mode i .shared) := by
  obtain ⟨hnone, hn⟩ := Option.ite_none_right_eq_some.mp hlock
  cases hn
  refine ⟨?_, ?_, ?_, fun hsome => absurd hnone hsome⟩
  · intro j
    by_cases hj : j = i
    · subst hj
      simp
    · simp [hj, h.shared j]
  · refine List.nodup_cons.mpr ⟨?_, h.nodup⟩
    rw [h.shared i, hi]
    simp
  · intro j
    by_cases hj : j = i
    · subst hj
      simp [hnone]
    · rw [Function.update_of_ne hj]
      exact h.exclusive j

theorem Guards.unlockShared (h : Guards m mode) (hi : mode i = .shared) :
    Guards (m.unlockShared i) (Function.update mode i .free) := by
  refine ⟨?_, h.nodup.erase i, ?_, ?_⟩
  · intro j
    rw [SharedMutex.unlockShared, h.nodup.mem_erase_iff, h.shared j]
    by_cases hj : j = i
    · subst hj
      simp
    · simp [hj]
  · intro j
    by_cases hj : j = i
    · subst hj
      simp [SharedMutex.unlockShared, h.exclusive j, hi]
    · rw [Function.update_of_ne hj]
      exact h.exclusive j
  · intro hsome
    rw [SharedMutex.unlockShared, h.apart hsome]
    rfl

theorem Guards.lock (h : Guards m mode) (hlock : m.lock i = some n) :
    Guards n (Function.update mode i .exclusive) ∧ ∀ j, mode j = .free := by
  obtain ⟨⟨hnone, hempty⟩, hn⟩ := Option.ite_none_right_eq_some.mp hlock
  have hfree : ∀ j, mode j = .free := by
    intro j
    cases hmode : mode j with
    | free => rfl
    | shared =>
      have hmem := (h.shared j).mpr hmode
      rw [hempty] at hmem
      cases hmem
    | exclusive =>
      have hsome := (h.exclusive j).mpr hmode
      rw [hnone] at hsome
      cases hsome
  cases hn
  refine ⟨⟨?_, h.nodup, ?_, fun _ => hempty⟩, hfree⟩
  · intro j
    by_cases hj : j = i
    · subst hj
      simp [hempty]
    · rw [Function.update_of_ne hj]
      exact h.shared j
  · intro j
    by_cases hj : j = i
    · subst hj
      simp
    · simp [hj, hfree j, Ne.symm hj]

theorem Guards.unlock (h : Guards m mode) (hi : mode i = .exclusive) :
    Guards m.unlock (Function.update mode i .free) := by
  have hsome := (h.exclusive i).mpr hi
  refine ⟨?_, h.nodup, ?_, fun hnone => absurd rfl hnone⟩
  · intro j
    by_cases hj : j = i
    · subst hj
      simp [SharedMutex.unlock, h.shared j, hi]
    · rw [Function.update_of_ne hj]
      exact h.shared j
  · intro j
    by_cases hj : j = i
    · subst hj
      simp [SharedMutex.unlock]
    · rw [Function.update_of_ne hj, ← h.exclusive j, hsome]
      simp [SharedMutex.unlock, Ne.symm hj]

omit [DecidableEq ι] in
theorem Guards.not_shared (h : Guards m mode) (hi : mode i = .exclusive) (j : ι) :
    mode j ≠ .shared := by
  intro hj
  have hsome := (h.exclusive i).mpr hi
  have hmem := (h.shared j).mpr hj
  rw [h.apart (by simp [hsome])] at hmem
  cases hmem

theorem Guards.lock_eq_none (h : Guards m mode) (hi : mode i = .shared) (j : ι) :
    m.lock j = none := by
  have hmem := (h.shared i).mpr hi
  have hne : m.shared ≠ [] := List.ne_nil_of_mem hmem
  rw [SharedMutex.lock, if_neg (by simp [hne])]

end SharedMutex

end Mprpc.Library
