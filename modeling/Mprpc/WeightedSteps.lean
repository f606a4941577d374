import Mprpc.Library.Transition
import Mprpc.SmoothWeights

namespace Mprpc.WeightedSteps

open Transport Library Library.Transition WeightedRoundRobinLoadBalancer SmoothWeights

/-- The values of an `int`. -/
def InInt (i : Int) : Prop := -2 ^ 31 ≤ i ∧ i < 2 ^ 31

instance (i : Int) : Decidable (InInt i) := inferInstanceAs (Decidable (_ ∧ _))

theorem InInt.wrapInt_eq {i : Int} (h : InInt i) : wrapInt i = i := wrapInt_of_range h.1 h.2

def total (instances : List ServiceInstance) : Int := (instances.map (·.weight)).sum

/-- The counter of an instance with its weight added. -/
def due (lb : WeightedRoundRobinLoadBalancer) (inst : ServiceInstance) : Int :=
  lb.currentWeights.value inst.getId + share inst

/-- No sum of a selection leaves the range of an `int`: the total as it grows, the counters
with their weights added, and the largest of them less the total. -/
structure Exact (lb : WeightedRoundRobinLoadBalancer) (healthy : List ServiceInstance) :
    Prop where
  totals : ∀ k, InInt (total (healthy.take k))
  credits : ∀ inst ∈ healthy, InInt (due lb inst)
  charges : ∀ inst ∈ healthy, (∀ x ∈ healthy, due lb x ≤ due lb inst) →
    InInt (due lb inst - total healthy)

/-- The lists that a selection is asked for. -/
structure Ready (lb : WeightedRoundRobinLoadBalancer) (instances : List ServiceInstance) :
    Prop where
  nonempty : healthyOf instances ≠ []
  ids : ((healthyOf instances).map (·.getId)).Nodup
  positive : ∀ inst ∈ healthyOf instances, 0 < inst.weight
  exact : Exact lb (healthyOf instances)

/-- A step of smooth weighted round robin: of the instances with the largest counter after
the weights are added, the first is returned and pays the total. -/
structure SmoothStep (lb : WeightedRoundRobinLoadBalancer) (instances : List ServiceInstance)
    (inst : ServiceInstance) : Prop where
  returned : (select instances lb).1 = .ok inst
  first : ∃ before after, healthyOf instances = before ++ inst :: after ∧
    (∀ x ∈ before, lb.currentWeights.value x.getId + x.weight <
      lb.currentWeights.value inst.getId + inst.weight) ∧
    ∀ x ∈ after, lb.currentWeights.value x.getId + x.weight ≤
      lb.currentWeights.value inst.getId + inst.weight
  charged : (select instances lb).2.currentWeights.value inst.getId =
    lb.currentWeights.value inst.getId + inst.weight - total (healthyOf instances)
  credited : ∀ x ∈ healthyOf instances, x ≠ inst →
    (select instances lb).2.currentWeights.value x.getId =
      lb.currentWeights.value x.getId + x.weight
  others : ∀ id, id ∉ (healthyOf instances).map (·.getId) →
    (select instances lb).2.currentWeights.value id = lb.currentWeights.value id

/-- Some healthy instance has a positive counter once its weight is added. -/
def HasCredit (lb : WeightedRoundRobinLoadBalancer) (instances : List ServiceInstance) : Prop :=
  ∃ inst ∈ healthyOf instances, 0 < lb.currentWeights.value inst.getId + inst.weight

def step (lb : WeightedRoundRobinLoadBalancer) (instances : List ServiceInstance) :
    Option WeightedRoundRobinLoadBalancer := some (select instances lb).2

section Selection

variable {lb : WeightedRoundRobinLoadBalancer} {instances : List ServiceInstance}
variable {healthy : HealthyInstances}

theorem Exact.credit_eq {l : List ServiceInstance} (h : Exact lb l) {inst : ServiceInstance}
    (hi : inst ∈ l) : credit lb.currentWeights inst = due lb inst :=
  (h.credits inst hi).wrapInt_eq

theorem Exact.total_eq {l : List ServiceInstance} (h : Exact lb l) :
    wrapInt (l.map (·.weight)).sum = total l := by
  have hall := (h.totals l.length).wrapInt_eq
  rwa [List.take_length] at hall

/-- The largest counter that the search finds is the largest one due. -/
theorem Exact.due_le_of_best {l : List ServiceInstance} (h : Exact lb l) {inst : ServiceInstance}
    (hbest : bestOf (credit lb.currentWeights) 0 l = some inst) {x : ServiceInstance}
    (hx : x ∈ l) : due lb x ≤ due lb inst := by
  have hle := bestOf_max hbest x hx
  rwa [h.credit_eq hx, h.credit_eq (bestOf_mem hbest)] at hle

theorem totals_of_nonneg {l : List ServiceInstance} (h : ∀ inst ∈ l, 0 ≤ inst.weight)
    (htotal : total l < 2 ^ 31) (k : Nat) : InInt (total (l.take k)) := by
  have hnonneg : ∀ l' : List ServiceInstance, (∀ inst ∈ l', 0 ≤ inst.weight) → 0 ≤ total l' := by
    intro l' hl'
    apply List.sum_nonneg
    intro i hi
    obtain ⟨inst, hinst, rfl⟩ := List.mem_map.mp hi
    exact hl' inst hinst
  have hsplit : total (l.take k) + total (l.drop k) = total l := by
    rw [total, total, ← List.sum_append, ← List.map_append, List.take_append_drop, total]
  have htake := hnonneg (l.take k) fun inst hi => h inst (List.mem_of_mem_take hi)
  have hdrop := hnonneg (l.drop k) fun inst hi => h inst (List.mem_of_mem_drop hi)
  exact ⟨by omega, by omega⟩

theorem choose_uncharged (hids : (healthy.instances.map (·.getId)).Nodup)
    (hnone : bestOf (credit lb.currentWeights) 0 healthy.instances = none)
    {inst : ServiceInstance} (hi : inst ∈ healthy.instances) :
    (choose healthy lb).2.currentWeights.value inst.getId = credit lb.currentWeights inst := by
  have hsel : (healthy.instances.foldl Scan.visit
      { currentWeights := lb.currentWeights.ensureAll healthy.instances }).selectedId = [] := by
    rw [selectedId_scan hids, hnone]
    rfl
  change Numbers.value (if (healthy.instances.foldl Scan.visit _).selectedId.isEmpty then _
    else _) _ = _
  rw [hsel]
  exact value_scan hids hi

theorem Ready.due_eq (ready : Ready lb instances) {inst : ServiceInstance}
    (hi : inst ∈ healthyOf instances) :
    due lb inst = lb.currentWeights.value inst.getId + inst.weight := by
  rw [due, share, if_pos (ready.positive inst hi)]

theorem Ready.credit_eq (ready : Ready lb instances) {inst : ServiceInstance}
    (hi : inst ∈ healthyOf instances) : credit lb.currentWeights inst =
      lb.currentWeights.value inst.getId + inst.weight :=
  (ready.exact.credit_eq hi).trans (ready.due_eq hi)

theorem Ready.total_pos (ready : Ready lb instances) : 0 < total (healthyOf instances) := by
  have hpos : ∀ i ∈ (healthyOf instances).map (·.weight), 0 < i := by
    intro i hi
    obtain ⟨inst, hinst, rfl⟩ := List.mem_map.mp hi
    exact ready.positive inst hinst
  exact List.sum_pos _ hpos (mt List.map_eq_nil_iff.mp ready.nonempty)

theorem Ready.select_eq (ready : Ready lb instances) :
    ∃ healthy : HealthyInstances, healthy.instances = healthyOf instances ∧
      select instances lb = (.ok (choose healthy lb).1, (choose healthy lb).2) := by
  obtain ⟨inst, hi⟩ := List.exists_mem_of_ne_nil _ ready.nonempty
  obtain ⟨hmem, hh⟩ := List.mem_filter.mp hi
  exact selectHealthy_ok choose hmem hh lb

/-- Where the search for the largest counter finds one, the selection is a step of the
algorithm. -/
theorem smoothStep_of_best (ready : Ready lb instances) {inst : ServiceInstance}
    (hbest : bestOf (credit lb.currentWeights) 0 (healthyOf instances) = some inst) :
    SmoothStep lb instances inst := by
  obtain ⟨healthy, hl, hselect⟩ := ready.select_eq
  have hi := bestOf_mem hbest
  have hmax : ∀ x ∈ healthyOf instances, due lb x ≤ due lb inst :=
    fun _ => ready.exact.due_le_of_best hbest
  have hids := ready.ids
  rw [← hl] at hids hbest
  obtain ⟨hpick, hin, hout⟩ := choose_best hids hbest
  rw [hl] at hin hout
  refine ⟨?_, ?_, ?_, ?_, ?_⟩
  · rw [hselect, hpick]
  · obtain ⟨-, before, after, hsplit, hbefore, hafter⟩ := bestOf_eq_some hbest
    rw [hl] at hsplit
    have hpart : ∀ x, x ∈ before ∨ x ∈ after → x ∈ healthyOf instances := by
      intro x hx
      rw [hsplit]
      exact hx.elim (fun h => List.mem_append_left _ h) fun h =>
        List.mem_append_right _ (List.mem_cons_of_mem inst h)
    refine ⟨before, after, hsplit, ?_, ?_⟩
    · intro x hx
      have hlt := hbefore x hx
      rwa [ready.credit_eq (hpart x (.inl hx)), ready.credit_eq hi] at hlt
    · intro x hx
      have hle := hafter x hx
      rwa [ready.credit_eq (hpart x (.inr hx)), ready.credit_eq hi] at hle
  · have hpaid := hin inst hi
    have hcharge := (ready.exact.charges inst hi hmax).wrapInt_eq
    rw [ready.due_eq hi] at hcharge
    rw [if_pos rfl, ready.exact.total_eq, ready.credit_eq hi, hcharge] at hpaid
    rw [hselect]
    exact hpaid
  · intro x hx hne
    have hkept := hin x hx
    rw [if_neg hne, ready.credit_eq hx] at hkept
    rw [hselect]
    exact hkept
  · intro id hid
    rw [hselect]
    exact hout id hid

/-- A selection is a step of the algorithm exactly when an instance has credit. -/
theorem smoothStep_iff (ready : Ready lb instances) :
    (∃ inst, SmoothStep lb instances inst) ↔ HasCredit lb instances := by
  cases hbest : bestOf (credit lb.currentWeights) 0 (healthyOf instances) with
  | some inst =>
    have hi := bestOf_mem hbest
    have hpos := (bestOf_eq_some hbest).1
    rw [ready.credit_eq hi] at hpos
    exact iff_of_true ⟨inst, smoothStep_of_best ready hbest⟩ ⟨inst, hi, hpos⟩
  | none =>
    refine iff_of_false ?_ ?_
    · rintro ⟨inst, hstep⟩
      obtain ⟨before, after, hsplit, -⟩ := hstep.first
      have hi : inst ∈ healthyOf instances := by simp [hsplit]
      obtain ⟨healthy, hl, hselect⟩ := ready.select_eq
      have hids := ready.ids
      rw [← hl] at hids hbest hi
      have huncharged := choose_uncharged hids hbest hi
      rw [hl] at hi
      have hpaid := hstep.charged
      rw [hselect] at hpaid
      have hsame := huncharged.symm.trans hpaid
      rw [ready.credit_eq hi] at hsame
      have hpos := ready.total_pos
      omega
    · rintro ⟨inst, hi, hpos⟩
      have hle := bestOf_eq_none.mp hbest inst hi
      rw [ready.credit_eq hi] at hle
      exact absurd hpos (not_lt.mpr hle)

end Selection

/-- On any sequence of lists every selection is a step of smooth weighted round robin
exactly when in every one of them an instance has credit. -/
theorem selections_smooth_iff {calls : List (List ServiceInstance)}
    (ready : Guarded step Ready {} calls) :
    Guarded step (fun lb instances => ∃ inst, SmoothStep lb instances inst) {} calls ↔
      Guarded step HasCredit {} calls :=
  guarded_congr (fun _ _ => smoothStep_iff) ready

section Leaving

def stayingInstance : ServiceInstance := ⟨text "calc", text "10.0.0.1", 8001, 1, true, 0, []⟩

def leavingInstance : ServiceInstance := ⟨text "calc", text "10.0.0.2", 8001, 1, true, 0, []⟩

/-- The second instance leaves after the first selection. -/
def leavingCalls : List (List ServiceInstance) :=
  [[stayingInstance, leavingInstance], [stayingInstance]]

theorem both_ready : Ready {} [stayingInstance, leavingInstance] :=
  ⟨by decide, by decide +kernel, by decide,
    totals_of_nonneg (by decide) (by decide), by decide +kernel, by decide +kernel⟩

theorem staying_ready :
    Ready (select [stayingInstance, leavingInstance] {}).2 [stayingInstance] :=
  ⟨by decide, by decide +kernel, by decide,
    totals_of_nonneg (by decide) (by decide), by decide +kernel, by decide +kernel⟩

theorem leavingCalls_ready : Guarded step Ready {} leavingCalls :=
  Guarded.cons both_ready rfl (Guarded.cons staying_ready rfl trivial)

theorem selections_smooth_iff_leaving :
    Guarded step (fun lb instances => ∃ inst, SmoothStep lb instances inst) {} leavingCalls ↔
      Guarded step HasCredit {} leavingCalls :=
  selections_smooth_iff leavingCalls_ready

/-- The instance that stays has no credit at the second selection, and does not pay. -/
theorem second_selection_unpaid :
    ∃ lb, step {} [stayingInstance, leavingInstance] = some lb ∧ Ready lb [stayingInstance] ∧
      (select [stayingInstance] lb).1 = .ok stayingInstance ∧
      (select [stayingInstance] lb).2.currentWeights.value stayingInstance.getId = 0 ∧
      ¬∃ inst, SmoothStep lb [stayingInstance] inst := by
  have hunpaid : (select [stayingInstance]
      (select [stayingInstance, leavingInstance] {}).2).2.currentWeights.value
        stayingInstance.getId = 0 := by
    decide +kernel
  have hcounter : (select [stayingInstance, leavingInstance] {}).2.currentWeights.value
      stayingInstance.getId = -1 := by
    decide +kernel
  refine ⟨_, rfl, staying_ready, by decide +kernel, hunpaid, ?_⟩
  rintro ⟨inst, hstep⟩
  obtain ⟨before, after, hsplit, -⟩ := hstep.first
  have hi : inst ∈ healthyOf [stayingInstance] := by simp [hsplit]
  obtain rfl : inst = stayingInstance := List.mem_singleton.mp hi
  have hpaid := hstep.charged
  rw [hunpaid, hcounter] at hpaid
  exact absurd hpaid (by decide)

end Leaving

end Mprpc.WeightedSteps
