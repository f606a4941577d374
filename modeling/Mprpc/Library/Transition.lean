import Mathlib.Data.List.Basic

namespace Mprpc.Library.Transition

variable {σ ℓ : Type*}

/-- Take the labelled steps one after the other; `none` when one of them is not
enabled in the state it is tried in. -/
def run (step : σ → ℓ → Option σ) : σ → List ℓ → Option σ
  | s, [] => some s
  | s, l :: ls => (step s l).bind (fun t => run step t ls)

/-- Every step of the run starts in a state that allows its label. -/
def Guarded (step : σ → ℓ → Option σ) (allows : σ → ℓ → Prop) : σ → List ℓ → Prop
  | _, [] => True
  | s, l :: ls => allows s l ∧ ∀ t, step s l = some t → Guarded step allows t ls

variable {step : σ → ℓ → Option σ} {allows : σ → ℓ → Prop}

theorem run_cons_some {s u : σ} {l : ℓ} {ls : List ℓ} :
    run step s (l :: ls) = some u ↔ ∃ t, step s l = some t ∧ run step t ls = some u := by
  simp [run, Option.bind_eq_some_iff]

theorem run_append (s : σ) (ls ms : List ℓ) :
    run step s (ls ++ ms) = (run step s ls).bind (fun t => run step t ms) := by
  induction ls generalizing s with
  | nil => rfl
  | cons l ls ih =>
    cases h : step s l with
    | none => simp [run, h]
    | some t => simpa [run, h] using ih t

theorem run_append_some {s u : σ} {ls ms : List ℓ} :
    run step s (ls ++ ms) = some u ↔ ∃ t, run step s ls = some t ∧ run step t ms = some u := by
  simp [run_append, Option.bind_eq_some_iff]

/-- The rule for guarded runs: what every allowed step preserves holds in the
state the run reaches. -/
theorem run_invariant {P : σ → Prop}
    (hstep : ∀ s l t, P s → allows s l → step s l = some t → P t)
    {s t : σ} {ls : List ℓ} (hs : P s) (hg : Guarded step allows s ls)
    (h : run step s ls = some t) : P t := by
  induction ls generalizing s with
  | nil =>
    cases h
    exact hs
  | cons l ls ih =>
    obtain ⟨u, hu, ht⟩ := run_cons_some.mp h
    exact ih (hstep s l u hs hg.1 hu) (hg.2 u hu) ht

theorem Guarded.cons {s t : σ} {l : ℓ} {ls : List ℓ} (hl : allows s l) (h : step s l = some t)
    (hg : Guarded step allows t ls) : Guarded step allows s (l :: ls) := by
  refine ⟨hl, ?_⟩
  intro u hu
  rw [h] at hu
  cases hu
  exact hg

/-- Where an invariant allows every step of a kind, a run of such steps is guarded. -/
theorem guarded_of_invariant {P : σ → Prop} {Q : ℓ → Prop}
    (hinv : ∀ s l t, P s → Q l → step s l = some t → P t)
    (hallows : ∀ s l, P s → Q l → allows s l) {s : σ} {ls : List ℓ} (hs : P s)
    (hls : ∀ l ∈ ls, Q l) : Guarded step allows s ls := by
  induction ls generalizing s with
  | nil => trivial
  | cons l ls ih =>
    have hl : Q l := hls l List.mem_cons_self
    refine ⟨hallows s l hs hl, ?_⟩
    intro t ht
    exact ih (hinv s l t hs hl ht) fun k hk => hls k (List.mem_cons_of_mem l hk)

/-- Guards that agree on the steps of a run guard the same. -/
theorem guarded_congr {ready p q : σ → ℓ → Prop} (h : ∀ s l, ready s l → (p s l ↔ q s l)) {s : σ}
    {ls : List ℓ} (hready : Guarded step ready s ls) :
    Guarded step p s ls ↔ Guarded step q s ls := by
  induction ls generalizing s with
  | nil => exact Iff.rfl
  | cons l ls ih =>
    apply and_congr (h s l hready.1)
    apply forall_congr'
    intro t
    exact forall_congr' fun ht => ih (hready.2 t ht)

theorem guarded_of_forall (hall : ∀ s l, allows s l) (s : σ) (ls : List ℓ) :
    Guarded step allows s ls :=
  guarded_of_invariant (P := fun _ => True) (Q := fun _ => True) (fun _ _ _ _ _ _ => trivial)
    (fun s l _ _ => hall s l) trivial fun _ _ => trivial

/-- The rule for runs: what every step preserves holds in the state the run reaches. -/
theorem run_invariant_of_forall {P : σ → Prop} (hstep : ∀ s l t, P s → step s l = some t → P t)
    {s t : σ} {ls : List ℓ} (hs : P s) (h : run step s ls = some t) : P t :=
  run_invariant (fun s l t hp (_ : True) => hstep s l t hp) hs
    (guarded_of_forall (fun _ _ => trivial) s ls) h

theorem Guarded.append_left {s : σ} {ls ms : List ℓ}
    (h : Guarded step allows s (ls ++ ms)) : Guarded step allows s ls := by
  induction ls generalizing s with
  | nil => trivial
  | cons l ls ih => exact ⟨h.1, fun t ht => ih (h.2 t ht)⟩

theorem Guarded.allows_of_run {s t : σ} {ls ms : List ℓ} {l : ℓ}
    (h : Guarded step allows s (ls ++ l :: ms)) (hrun : run step s ls = some t) : allows t l := by
  induction ls generalizing s with
  | nil =>
    cases hrun
    exact h.1
  | cons k ls ih =>
    obtain ⟨u, hu, ht⟩ := run_cons_some.mp hrun
    exact ih (h.2 u hu) ht

/-- An invariant that allowed steps keep, and that other steps can break `P`
from, makes the guarded runs the ones that are safe all along. -/
theorem forall_prefix_iff_guarded_of_invariant {P Inv : σ → Prop} (hsafe : ∀ s, Inv s → P s)
    (hinv : ∀ s l t, Inv s → allows s l → step s l = some t → Inv t)
    (hstep : ∀ s l, Inv s → (∀ t, step s l = some t → P t) → allows s l)
    {s : σ} {ls : List ℓ} (hs : Inv s) :
    (∀ before t, before <+: ls → run step s before = some t → P t) ↔ Guarded step allows s ls := by
  constructor
  · intro h
    induction ls generalizing s with
    | nil => trivial
    | cons l ls ih =>
      have hl : allows s l := by
        apply hstep s l hs
        intro t ht
        exact h [l] t (by simp) (run_cons_some.mpr ⟨t, ht, rfl⟩)
      refine ⟨hl, ?_⟩
      intro t ht
      apply ih (hinv s l t hs hl ht)
      intro before u hb hr
      exact h (l :: before) u (List.cons_prefix_cons.mpr ⟨rfl, hb⟩) (run_cons_some.mpr ⟨t, ht, hr⟩)
  · rintro hg before t ⟨after, rfl⟩ hr
    exact hsafe t (run_invariant hinv hs hg.append_left hr)

/-- A run that is not guarded comes to a step that is not allowed. -/
theorem exists_of_not_guarded {s u : σ} {ls : List ℓ} (h : ¬Guarded step allows s ls)
    (hrun : run step s ls = some u) : ∃ before l after t, ls = before ++ l :: after ∧
      run step s before = some t ∧ ¬allows t l := by
  induction ls generalizing s with
  | nil => exact absurd trivial h
  | cons l ls ih =>
    obtain ⟨t, ht, hu⟩ := run_cons_some.mp hrun
    by_cases hl : allows s l
    · have hrest : ¬Guarded step allows t ls := fun hg => h (Guarded.cons hl ht hg)
      obtain ⟨before, l', after, v, rfl, hv, hl'⟩ := ih hrest hu
      exact ⟨l :: before, l', after, v, rfl, run_cons_some.mpr ⟨t, ht, hv⟩, hl'⟩
    · exact ⟨[], l, ls, s, rfl, rfl, hl⟩

theorem guarded_of_forall_mem {Q : ℓ → Prop} {ls : List ℓ} (h : ∀ l ∈ ls, Q l) (s : σ) :
    Guarded step (fun _ => Q) s ls :=
  guarded_of_invariant (P := fun _ => True) (fun _ _ _ _ _ _ => trivial) (fun _ _ _ h => h)
    trivial h

/-- Where the label alone decides, a run that goes through is safe all along
exactly when every label in it is a good one. -/
theorem forall_prefix_iff_forall_mem {P Inv : σ → Prop} {Q : ℓ → Prop} (hsafe : ∀ s, Inv s → P s)
    (hinv : ∀ s l t, Inv s → Q l → step s l = some t → Inv t)
    (hstep : ∀ s l t, Inv s → ¬ Q l → step s l = some t → ¬ P t)
    {s u : σ} {ls : List ℓ} (hs : Inv s) (hrun : run step s ls = some u) :
    (∀ before t, before <+: ls → run step s before = some t → P t) ↔ ∀ l ∈ ls, Q l := by
  constructor
  · intro h
    induction ls generalizing s with
    | nil => simp
    | cons l ls ih =>
      obtain ⟨t, ht, hu⟩ := run_cons_some.mp hrun
      have hl : Q l := by
        by_contra hn
        exact hstep s l t hs hn ht (h [l] t (by simp) (run_cons_some.mpr ⟨t, ht, rfl⟩))
      have hls : ∀ k ∈ ls, Q k := by
        apply ih (hinv s l t hs hl ht) hu
        intro before v hb hr
        exact h (l :: before) v (List.cons_prefix_cons.mpr ⟨rfl, hb⟩)
          (run_cons_some.mpr ⟨t, ht, hr⟩)
      exact List.forall_mem_cons.mpr ⟨hl, hls⟩
  · rintro h before t ⟨after, rfl⟩ hr
    have hg : Guarded step (fun _ => Q) s before :=
      guarded_of_forall_mem (fun l hl => h l (by simp [hl])) s
    exact hsafe t (run_invariant hinv hs hg hr)

/-- If a step keeps `P` exactly when it is allowed, then the runs that keep `P`
all along are the guarded ones. -/
theorem forall_prefix_iff_guarded {P Inv : σ → Prop}
    (hinv : ∀ s l t, Inv s → step s l = some t → Inv t)
    (hstep : ∀ s l, Inv s → P s → ((∀ t, step s l = some t → P t) ↔ allows s l))
    {s : σ} {ls : List ℓ} (hs : Inv s) (hp : P s) :
    (∀ before t, before <+: ls → run step s before = some t → P t) ↔ Guarded step allows s ls := by
  have hboth : Inv s ∧ P s := ⟨hs, hp⟩
  have hsafe : ∀ s, Inv s ∧ P s → P s := fun _ h => h.2
  refine forall_prefix_iff_guarded_of_invariant hsafe ?_ ?_ hboth
  · intro s l t h hl ht
    exact ⟨hinv s l t h.1 ht, (hstep s l h.1 h.2).mpr hl t ht⟩
  · intro s l h
    exact (hstep s l h.1 h.2).mp

end Mprpc.Library.Transition
