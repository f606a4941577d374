import Mprpc.WeightedSteps

namespace Mprpc.CounterBounds

open Transport Library WeightedRoundRobinLoadBalancer SmoothWeights WeightedSteps

/-- The sum of the weights when one that is not positive counts as 1. -/
def effective (instances : List ServiceInstance) : Int := (instances.map share).sum

/-- The largest size that is allowed to a counter. -/
def bound (instances : List ServiceInstance) : Int :=
  (healthyOf instances).length * effective (healthyOf instances)

/-- The balancer after some selections from one list. -/
def balancer (instances : List ServiceInstance) (t : Nat) : WeightedRoundRobinLoadBalancer :=
  (selects instances t {}).2

/-- After `t` selections the counters are within the bound and add up to zero, and the
next selection overflows nowhere. -/
structure Bounded (instances : List ServiceInstance) (t : Nat) : Prop where
  entries : ∀ id, -bound instances ≤ (balancer instances t).currentWeights.value id ∧
    (balancer instances t).currentWeights.value id ≤ bound instances
  sum : ((healthyOf instances).map fun x =>
    (balancer instances t).currentWeights.value x.getId).sum = 0
  exact : Exact (balancer instances t) (healthyOf instances)

variable {instances : List ServiceInstance}

section Positive

theorem share_of_pos {inst : ServiceInstance} (h : 0 < inst.weight) : share inst = inst.weight :=
  if_pos h

theorem effective_eq (h : ∀ inst ∈ instances, 0 < inst.weight) :
    effective instances = total instances :=
  congrArg List.sum (List.map_congr_left fun inst hi => share_of_pos (h inst hi))

theorem weighted_of_pos (hids : ((healthyOf instances).map (·.getId)).Nodup)
    (hbound : bound instances < 2 ^ 31) (h : ∀ inst ∈ healthyOf instances, 0 < inst.weight) :
    Weighted (healthyOf instances) := by
  refine ⟨hids, h, ?_⟩
  rw [bound, effective_eq h] at hbound
  exact hbound

theorem balancer_of_empty (h : healthyOf instances = []) (t : Nat) :
    balancer instances t = {} := by
  induction t with
  | zero => rfl
  | succ t ih =>
    have hall : ∀ inst ∈ instances, inst.isHealthy = false := by
      simpa using List.filter_eq_nil_iff.mp h
    obtain ⟨e, he⟩ := selectHealthy_error choose hall (balancer instances t)
    change (select instances (balancer instances t)).2 = {}
    rw [select, he]
    exact ih

theorem bounded_of_empty (h : healthyOf instances = []) (t : Nat) : Bounded instances t := by
  have hbound : bound instances = 0 := by
    rw [bound, h]
    rfl
  refine ⟨?_, ?_, ?_⟩
  · intro id
    rw [balancer_of_empty h, hbound]
    exact ⟨le_rfl, le_rfl⟩
  · rw [h]
    rfl
  · rw [h]
    refine ⟨?_, fun _ hi => absurd hi List.not_mem_nil, fun _ hi => absurd hi List.not_mem_nil⟩
    exact totals_of_nonneg (fun _ hi => absurd hi List.not_mem_nil) (by decide)

theorem effective_le_bound (hw : Weighted (healthyOf instances)) (hne : healthyOf instances ≠ []) :
    0 < effective (healthyOf instances) ∧ effective (healthyOf instances) ≤ bound instances := by
  obtain ⟨inst, hi⟩ := List.exists_mem_of_ne_nil _ hne
  have hle := (hw.total_lt hi).1
  rw [← total, ← effective_eq hw.positive] at hle
  have hpos := hw.positive inst hi
  have hlength : 1 ≤ ((healthyOf instances).length : Int) := by
    have := List.length_pos_iff.mpr hne
    omega
  exact ⟨by omega, le_mul_of_one_le_left (by omega) hlength⟩

/-- The counters of positive weights stay a turn away from the bound, and one of them is
positive once the weights are added. -/
structure Turning (instances : List ServiceInstance) (c : ServiceInstance → Int) : Prop where
  range : ∀ x ∈ healthyOf instances, -effective (healthyOf instances) < c x ∧
    c x ≤ bound instances - effective (healthyOf instances)
  sum : ((healthyOf instances).map c).sum = 0
  positive : ∃ x ∈ healthyOf instances, 0 < c x + x.weight

theorem turning_of_schedule (hw : Weighted (healthyOf instances)) (hne : healthyOf instances ≠ [])
    {picks : List ServiceInstance} {c : ServiceInstance → Int}
    (hs : SmoothRoundRobin.Schedule (healthyOf instances).toFinset (·.weight) picks c) :
    Turning instances c := by
  refine ⟨?_, ?_, ?_⟩
  · intro x hx
    have hx' := List.mem_toFinset.mpr hx
    have hlow := hs.neg_lt hw.pos x hx'
    have hup := hs.le_card hw.pos hx'
    rw [hw.sum_eq, ← total, ← effective_eq hw.positive] at hlow hup
    rw [List.toFinset_card_of_nodup hw.ids.of_map, sub_one_mul, ← bound] at hup
    exact ⟨hlow, hup⟩
  · rw [← List.sum_toFinset c hw.ids.of_map]
    exact hs.sum_eq_zero
  · obtain ⟨x, hx, hpos⟩ := hs.exists_pos hw.pos ((List.toFinset_nonempty_iff _).mpr hne)
    exact ⟨x, List.mem_toFinset.mp hx, hpos⟩

theorem bounded_of_pos (hw : Weighted (healthyOf instances)) (t : Nat) : Bounded instances t := by
  by_cases hne : healthyOf instances = []
  · exact bounded_of_empty hne t
  obtain ⟨picks, c, -, -, hs, hin, hout⟩ := selects_schedule hw hne t {}
  change ∀ x ∈ healthyOf instances, (balancer instances t).currentWeights.value x.getId = c x at hin
  change ∀ id, _ → (balancer instances t).currentWeights.value id = 0 at hout
  have turning := turning_of_schedule hw hne hs
  have heq : effective (healthyOf instances) = total (healthyOf instances) :=
    effective_eq hw.positive
  obtain ⟨hpos, hle⟩ := effective_le_bound hw hne
  have hlt : bound instances < 2 ^ 31 := by
    rw [bound, heq]
    exact hw.bounded
  have hdue : ∀ x ∈ healthyOf instances, due (balancer instances t) x = c x + x.weight ∧
      0 < x.weight ∧ x.weight ≤ effective (healthyOf instances) := by
    intro x hx
    refine ⟨?_, hw.positive x hx, ?_⟩
    · rw [due, hin x hx, share_of_pos (hw.positive x hx)]
    · rw [heq]
      exact (hw.total_lt hx).1
  refine ⟨?_, ?_, ?_, ?_, ?_⟩
  · intro id
    by_cases hid : id ∈ (healthyOf instances).map (·.getId)
    · obtain ⟨x, hx, rfl⟩ := List.mem_map.mp hid
      have hx' := turning.range x hx
      rw [hin x hx]
      exact ⟨by omega, by omega⟩
    · rw [hout id hid]
      exact ⟨by omega, by omega⟩
  · rw [List.map_congr_left hin]
    exact turning.sum
  · apply totals_of_nonneg
    · exact fun x hx => (hw.positive x hx).le
    · omega
  · intro x hx
    have hx' := turning.range x hx
    have hx'' := hdue x hx
    exact ⟨by omega, by omega⟩
  · intro x hx hmax
    -- the largest of the counters is positive, as they add up to the total
    obtain ⟨y, hy, hypos⟩ := turning.positive
    have hyx := hmax y hy
    have hydue := (hdue y hy).1
    have hx' := turning.range x hx
    have hx'' := hdue x hx
    exact ⟨by omega, by omega⟩

end Positive

section Drift

theorem due_new (inst : ServiceInstance) : due {} inst = share inst := zero_add _

theorem share_pos (inst : ServiceInstance) : 0 < share inst := by
  unfold share
  split <;> omega

/-- The first selection adds the weights as they count, and takes away their total as
they are. -/
theorem first_sum (hids : ((healthyOf instances).map (·.getId)).Nodup)
    (hne : healthyOf instances ≠ []) (hexact : Exact {} (healthyOf instances)) :
    ((healthyOf instances).map fun x =>
      (balancer instances 1).currentWeights.value x.getId).sum =
        effective (healthyOf instances) - total (healthyOf instances) := by
  have hcredit : ∀ x ∈ healthyOf instances,
      credit ({} : WeightedRoundRobinLoadBalancer).currentWeights x = share x :=
    fun x hx => (hexact.credit_eq hx).trans (due_new x)
  obtain ⟨first, hfirst⟩ := List.exists_mem_of_ne_nil _ hne
  obtain ⟨hmem, hh⟩ := List.mem_filter.mp hfirst
  obtain ⟨healthy, hl, hselect⟩ := selectHealthy_ok choose hmem hh {}
  change healthy.instances = healthyOf instances at hl
  cases hbest : bestOf (credit ({} : WeightedRoundRobinLoadBalancer).currentWeights) 0
      (healthyOf instances) with
  | none =>
    have hle := bestOf_eq_none.mp hbest first hfirst
    rw [hcredit first hfirst] at hle
    exact absurd (share_pos first) (not_lt.mpr hle)
  | some inst =>
    have hi := bestOf_mem hbest
    have hcharge :=
      (hexact.charges inst hi fun _ => hexact.due_le_of_best hbest).wrapInt_eq
    rw [due_new] at hcharge
    have hbest' := hbest
    have hids' := hids
    rw [← hl] at hbest' hids'
    obtain ⟨-, hin, -⟩ := choose_best hids' hbest'
    rw [hl] at hin
    have hvalue : ∀ x ∈ healthyOf instances,
        (balancer instances 1).currentWeights.value x.getId =
          if x = inst then share x - total (healthyOf instances) else share x := by
      intro x hx
      change (select instances {}).2.currentWeights.value x.getId = _
      rw [select, hselect, hin x hx, hcredit x hx, hexact.total_eq]
      by_cases hxi : x = inst
      · rw [if_pos hxi, if_pos hxi, hxi, hcharge]
      · rw [if_neg hxi, if_neg hxi]
    rw [List.map_congr_left hvalue, List.sum_map_ite_eq, List.count_eq_one_of_mem hids.of_map hi,
      one_nsmul, ← effective]
    omega

theorem total_lt_effective {inst : ServiceInstance} {l : List ServiceInstance} (hi : inst ∈ l)
    (hweight : inst.weight ≤ 0) : total l < effective l := by
  apply List.sum_lt_sum
  · intro x _
    unfold share
    split <;> omega
  · refine ⟨inst, hi, ?_⟩
    rw [share, if_neg (not_lt.mpr hweight)]
    omega

end Drift

/-- The counters stay bounded and balanced over runs of any length exactly when every
weight is positive. -/
theorem counters_bounded_iff (instances : List ServiceInstance)
    (hids : ((healthyOf instances).map (·.getId)).Nodup) (hbound : bound instances < 2 ^ 31) :
    (∀ t, Bounded instances t) ↔ ∀ inst ∈ healthyOf instances, 0 < inst.weight := by
  constructor
  · intro h inst hi
    by_contra hweight
    have hsum := (h 1).sum
    rw [first_sum hids (List.ne_nil_of_mem hi) (h 0).exact] at hsum
    have hlt := total_lt_effective hi (not_lt.mp hweight)
    omega
  · intro h
    exact bounded_of_pos (weighted_of_pos hids hbound h)

section ZeroWeight

def weightedInstance : ServiceInstance := ⟨text "calc", text "10.0.0.1", 8001, 3, true, 0, []⟩

def weightlessInstance : ServiceInstance := ⟨text "calc", text "10.0.0.2", 8001, 0, true, 0, []⟩

theorem counters_bounded_iff_weightless :
    (∀ t, Bounded [weightedInstance, weightlessInstance] t) ↔
      ∀ inst ∈ healthyOf [weightedInstance, weightlessInstance], 0 < inst.weight :=
  counters_bounded_iff _ (by decide) (by decide)

/-- The counters add up to one more after every selection. -/
theorem weightless_drift :
    ((healthyOf [weightedInstance, weightlessInstance]).map fun x =>
      (balancer [weightedInstance, weightlessInstance] 20).currentWeights.value x.getId).sum =
        20 ∧
    ¬Bounded [weightedInstance, weightlessInstance] 20 := by
  have hsum : ((healthyOf [weightedInstance, weightlessInstance]).map fun x =>
      (balancer [weightedInstance, weightlessInstance] 20).currentWeights.value x.getId).sum =
        20 := by
    decide +kernel
  refine ⟨hsum, fun h => ?_⟩
  have hzero := h.sum
  rw [hsum] at hzero
  cases hzero

end ZeroWeight

end Mprpc.CounterBounds
