import Mprpc.Library.Transition

namespace Mprpc.Library.Transition

variable {σ ℓ : Type*} {step : σ → ℓ → Option σ}

/-- The rule for what relates a state to the labels that have led to it. -/
theorem run_history {P : List ℓ → σ → Prop}
    (hstep : ∀ ls s l t, P ls s → step s l = some t → P (ls ++ [l]) t) {s t : σ} {ls : List ℓ}
    (hs : P [] s) (h : run step s ls = some t) : P ls t := by
  have hgeneral : ∀ (later before : List ℓ) (u : σ), P before u → run step u later = some t →
      P (before ++ later) t := by
    intro later
    induction later with
    | nil =>
      intro before u hu hrun
      cases hrun
      rwa [List.append_nil]
    | cons l later ih =>
      intro before u hu hrun
      obtain ⟨v, hv, hrest⟩ := run_cons_some.mp hrun
      have hlast := ih (before ++ [l]) v (hstep before u l v hu hv) hrest
      rwa [List.append_assoc, List.singleton_append] at hlast
  exact hgeneral ls [] s hs h

/-- The ranking rule: a rank that no step raises, and that every step of a kind lowers, bounds
how many steps of the kind a run can take. -/
theorem countP_le_rank {Inv : σ → Prop} {rank : σ → Nat} {kind : ℓ → Bool}
    (hinv : ∀ s l t, Inv s → step s l = some t → Inv t)
    (hrank : ∀ s l t, Inv s → step s l = some t →
      rank t + (if kind l then 1 else 0) ≤ rank s)
    {s t : σ} {ls : List ℓ} (hs : Inv s) (h : run step s ls = some t) :
    rank t + ls.countP kind ≤ rank s := by
  induction ls generalizing s with
  | nil =>
    cases h
    exact Nat.le_refl _
  | cons l ls ih =>
    obtain ⟨u, hu, hrest⟩ := run_cons_some.mp h
    have hfirst := hrank s l u hs hu
    have hlater := ih (hinv s l u hs hu) hrest
    rw [List.countP_cons]
    omega

end Mprpc.Library.Transition
