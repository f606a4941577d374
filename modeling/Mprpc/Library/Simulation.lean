import Mprpc.Library.Transition

namespace Mprpc.Library.Transition

variable {σ τ ℓ κ : Type*}

/-- A relation between two systems: every allowed step of the first is matched by a run of the
second, whose steps are permitted ones and which leads to a related state again. -/
structure Simulation (step : σ → ℓ → Option σ) (allows : σ → ℓ → Prop) (next : τ → κ → Option τ)
    (permits : τ → κ → Prop) where
  rel : σ → τ → Prop
  matched : ∀ s l s' t, rel s t → allows s l → step s l = some s' →
    ∃ ms t', run next t ms = some t' ∧ Guarded next permits t ms ∧ rel s' t'

variable {step : σ → ℓ → Option σ} {allows : σ → ℓ → Prop} {next : τ → κ → Option τ}
  {permits : τ → κ → Prop}

theorem guarded_append {t u : τ} {ms ns : List κ} (hms : Guarded next permits t ms)
    (h : run next t ms = some u) (hns : Guarded next permits u ns) :
    Guarded next permits t (ms ++ ns) := by
  induction ms generalizing t with
  | nil =>
    cases h
    exact hns
  | cons m ms ih =>
    obtain ⟨v, hv, hu⟩ := run_cons_some.mp h
    exact Guarded.cons hms.1 hv (ih (hms.2 v hv) hu)

/-- The run rule: what the first system does as a whole is done by the second. -/
theorem Simulation.run_matched (sim : Simulation step allows next permits) {s s' : σ} {t : τ}
    {ls : List ℓ} (hrel : sim.rel s t) (hg : Guarded step allows s ls)
    (h : run step s ls = some s') :
    ∃ ms t', run next t ms = some t' ∧ Guarded next permits t ms ∧ sim.rel s' t' := by
  induction ls generalizing s t with
  | nil =>
    cases h
    exact ⟨[], t, rfl, trivial, hrel⟩
  | cons l ls ih =>
    obtain ⟨u, hu, hrest⟩ := run_cons_some.mp h
    obtain ⟨ms, v, hv, hms, hrel'⟩ := sim.matched s l u t hrel hg.1 hu
    obtain ⟨ns, w, hw, hns, hlast⟩ := ih hrel' (hg.2 u hu) hrest
    exact ⟨ms ++ ns, w, run_append_some.mpr ⟨v, hv, hw⟩, guarded_append hms hv hns, hlast⟩

end Mprpc.Library.Transition
