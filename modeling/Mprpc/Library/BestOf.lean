import Mathlib.Order.Lattice

namespace Mprpc.Library

variable {α β : Type*} [LinearOrder β]

/-- Go through a list with the best value so far, and keep the last element that
improves on it. -/
def bestOf (f : α → β) : β → List α → Option α
  | _, [] => none
  | b, a :: as => if b < f a then some ((bestOf f (f a) as).getD a) else bestOf f b as

variable {f : α → β} {b : β} {a : α} {as : List α}

theorem bestOf_congr {g : α → β} (h : ∀ a ∈ as, f a = g a) : bestOf f b as = bestOf g b as := by
  induction as generalizing b with
  | nil => rfl
  | cons a as ih =>
    obtain ⟨ha, has⟩ := List.forall_mem_cons.mp h
    simp only [bestOf, ha, ih has]

theorem bestOf_eq_none : bestOf f b as = none ↔ ∀ a ∈ as, f a ≤ b := by
  induction as generalizing b with
  | nil => simp [bestOf]
  | cons a as ih =>
    by_cases h : b < f a
    · refine ⟨by simp [bestOf, h], ?_⟩
      intro hall
      exact absurd h (not_lt.mpr (hall a List.mem_cons_self))
    · simp [bestOf, h, ih, not_lt.mp h]

theorem bestOf_eq_some (h : bestOf f b as = some a) :
    b < f a ∧ ∃ before after, as = before ++ a :: after ∧
      (∀ x ∈ before, f x < f a) ∧ ∀ x ∈ after, f x ≤ f a := by
  induction as generalizing b with
  | nil => cases h
  | cons x as ih =>
    by_cases hx : b < f x
    · cases hr : bestOf f (f x) as with
      | none =>
        have hxa : x = a := by simpa [bestOf, hx, hr] using h
        subst hxa
        exact ⟨hx, [], as, rfl, by simp, bestOf_eq_none.mp hr⟩
      | some y =>
        have hya : y = a := by simpa [bestOf, hx, hr] using h
        subst hya
        obtain ⟨hlt, before, after, rfl, hbefore, hafter⟩ := ih hr
        refine ⟨hx.trans hlt, x :: before, after, rfl, ?_, hafter⟩
        intro z hz
        obtain rfl | hz := List.mem_cons.mp hz
        · exact hlt
        · exact hbefore z hz
    · have hr : bestOf f b as = some a := by simpa [bestOf, hx] using h
      obtain ⟨hlt, before, after, rfl, hbefore, hafter⟩ := ih hr
      refine ⟨hlt, x :: before, after, rfl, ?_, hafter⟩
      intro z hz
      obtain rfl | hz := List.mem_cons.mp hz
      · exact lt_of_le_of_lt (not_lt.mp hx) hlt
      · exact hbefore z hz

theorem bestOf_mem (h : bestOf f b as = some a) : a ∈ as := by
  obtain ⟨-, before, after, rfl, -⟩ := bestOf_eq_some h
  simp

theorem bestOf_max (h : bestOf f b as = some a) : ∀ x ∈ as, f x ≤ f a := by
  obtain ⟨-, before, after, rfl, hbefore, hafter⟩ := bestOf_eq_some h
  intro x hx
  obtain hx | hx := List.mem_append.mp hx
  · exact (hbefore x hx).le
  · obtain rfl | hx := List.mem_cons.mp hx
    · exact le_rfl
    · exact hafter x hx

end Mprpc.Library
