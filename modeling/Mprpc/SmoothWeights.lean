import Mathlib.Algebra.BigOperators.Group.List.Basic
import Mprpc.Library.BestOf
import Mprpc.Library.SmoothRoundRobin
import Mprpc.LoadBalancers

namespace Mprpc.SmoothWeights

open Transport Library WeightedRoundRobinLoadBalancer

/-- What a selection adds to the counter of an instance. -/
def share (inst : ServiceInstance) : Int := if inst.weight > 0 then inst.weight else 1

/-- The counter of an instance when the loop compares it. -/
def credit (weights : Numbers) (inst : ServiceInstance) : Int :=
  wrapInt (weights.value inst.getId + share inst)

section Loop

variable {instances : List ServiceInstance} (scan : Scan)

theorem visit_eq (inst : ServiceInstance) :
    scan.visit inst =
      if scan.maxWeight < credit scan.currentWeights inst then
        ⟨scan.currentWeights.set inst.getId (credit scan.currentWeights inst),
          wrapInt (scan.totalWeight + inst.weight), credit scan.currentWeights inst, inst.getId⟩
      else
        ⟨scan.currentWeights.set inst.getId (credit scan.currentWeights inst),
          wrapInt (scan.totalWeight + inst.weight), scan.maxWeight, scan.selectedId⟩ := rfl

theorem visit_weights (inst : ServiceInstance) :
    (scan.visit inst).currentWeights =
      scan.currentWeights.set inst.getId (credit scan.currentWeights inst) := by
  rw [visit_eq]
  split <;> rfl

theorem visit_total (inst : ServiceInstance) :
    (scan.visit inst).totalWeight = wrapInt (scan.totalWeight + inst.weight) := by
  rw [visit_eq]
  split <;> rfl

theorem value_loop_of_notMem {id : Text} (h : id ∉ instances.map (·.getId)) :
    (instances.foldl Scan.visit scan).currentWeights.value id = scan.currentWeights.value id := by
  induction instances generalizing scan with
  | nil => rfl
  | cons inst instances ih =>
    obtain ⟨hne, hrest⟩ := not_or.mp (mt List.mem_cons.mpr h)
    rw [List.foldl_cons, ih _ hrest, visit_weights, Numbers.value_set, if_neg hne]

theorem value_loop (hids : (instances.map (·.getId)).Nodup) {inst : ServiceInstance}
    (hi : inst ∈ instances) :
    (instances.foldl Scan.visit scan).currentWeights.value inst.getId =
      credit scan.currentWeights inst := by
  induction instances generalizing scan with
  | nil => cases hi
  | cons x instances ih =>
    obtain ⟨hx, hrest⟩ := List.nodup_cons.mp hids
    rw [List.foldl_cons]
    obtain rfl | hi := List.mem_cons.mp hi
    · rw [value_loop_of_notMem _ hx, visit_weights, Numbers.value_set, if_pos rfl]
    · have hne : inst.getId ≠ x.getId := fun h => hx (List.mem_map.mpr ⟨inst, hi, h⟩)
      rw [ih _ hrest hi, credit, visit_weights, Numbers.value_set, if_neg hne, ← credit]

theorem total_loop {total : Int} (h : scan.totalWeight = wrapInt total) :
    (instances.foldl Scan.visit scan).totalWeight =
      wrapInt (total + (instances.map (·.weight)).sum) := by
  induction instances generalizing scan total with
  | nil => simpa using h
  | cons inst instances ih =>
    have hv : (scan.visit inst).totalWeight = wrapInt (total + inst.weight) := by
      rw [visit_total, h, wrapInt_add]
    rw [List.foldl_cons, ih _ hv, List.map_cons, List.sum_cons, add_assoc]

/-- The loop ends with the first instance whose counter is largest, if it is
above what the loop started with. -/
theorem selectedId_loop (hids : (instances.map (·.getId)).Nodup) :
    (instances.foldl Scan.visit scan).selectedId =
      ((bestOf (credit scan.currentWeights) scan.maxWeight instances).map (·.getId)).getD
        scan.selectedId := by
  induction instances generalizing scan with
  | nil => rfl
  | cons x instances ih =>
    obtain ⟨hx, hrest⟩ := List.nodup_cons.mp hids
    have hcongr : ∀ inst ∈ instances, credit (scan.visit x).currentWeights inst =
        credit scan.currentWeights inst := by
      intro inst hi
      have hne : inst.getId ≠ x.getId := fun h => hx (List.mem_map.mpr ⟨inst, hi, h⟩)
      rw [credit, visit_weights, Numbers.value_set, if_neg hne, ← credit]
    rw [List.foldl_cons, ih _ hrest, bestOf_congr hcongr]
    by_cases hlt : scan.maxWeight < credit scan.currentWeights x
    · rw [visit_eq, if_pos hlt, bestOf, if_pos hlt]
      cases bestOf (credit scan.currentWeights) (credit scan.currentWeights x) instances <;> rfl
    · rw [visit_eq, if_neg hlt, bestOf, if_neg hlt]

end Loop

section Choose

variable {healthy : HealthyInstances} {lb : WeightedRoundRobinLoadBalancer} {inst : ServiceInstance}

theorem credit_ensureAll (instances : List ServiceInstance) :
    credit (lb.currentWeights.ensureAll instances) = credit lb.currentWeights := by
  funext x
  rw [credit, Numbers.value_ensureAll, ← credit]

/-- The loop starts from the counters of the balancer, as an id that is new counts 0. -/
theorem selectedId_scan (hids : (healthy.instances.map (·.getId)).Nodup) :
    (healthy.instances.foldl Scan.visit
      { currentWeights := lb.currentWeights.ensureAll healthy.instances }).selectedId =
        ((bestOf (credit lb.currentWeights) 0 healthy.instances).map (·.getId)).getD [] := by
  rw [selectedId_loop _ hids]
  change ((bestOf (credit (lb.currentWeights.ensureAll healthy.instances)) 0 _).map _).getD [] = _
  rw [credit_ensureAll]

theorem value_scan (hids : (healthy.instances.map (·.getId)).Nodup)
    (hi : inst ∈ healthy.instances) :
    (healthy.instances.foldl Scan.visit
      { currentWeights := lb.currentWeights.ensureAll healthy.instances }).currentWeights.value
        inst.getId = credit lb.currentWeights inst :=
  (value_loop _ hids hi).trans (congrFun (credit_ensureAll _) inst)

theorem withId_getId (hids : (healthy.instances.map (·.getId)).Nodup)
    (hi : inst ∈ healthy.instances) : healthy.withId inst.getId = some inst := by
  cases h : healthy.withId inst.getId with
  | none =>
    rw [HealthyInstances.withId, List.find?_eq_none] at h
    simpa using h inst hi
  | some x =>
    have hid : x.getId = inst.getId := by simpa using List.find?_some h
    rw [List.inj_on_of_nodup_map hids (List.mem_of_find?_eq_some h) hi hid]

/-- One selection: the first instance with the largest counter is returned and
pays the total. -/
theorem choose_best (hids : (healthy.instances.map (·.getId)).Nodup)
    (hbest : bestOf (credit lb.currentWeights) 0 healthy.instances = some inst) :
    (choose healthy lb).1 = inst ∧
    (∀ x ∈ healthy.instances, (choose healthy lb).2.currentWeights.value x.getId =
      if x = inst then
        wrapInt (credit lb.currentWeights x - wrapInt (healthy.instances.map (·.weight)).sum)
      else credit lb.currentWeights x) ∧
    ∀ id, id ∉ healthy.instances.map (·.getId) →
      (choose healthy lb).2.currentWeights.value id = lb.currentWeights.value id := by
  have hi := bestOf_mem hbest
  let scan : Scan := { currentWeights := lb.currentWeights.ensureAll healthy.instances }
  have hsel : (healthy.instances.foldl Scan.visit scan).selectedId = inst.getId := by
    rw [selectedId_scan hids, hbest]
    rfl
  have htotal : (healthy.instances.foldl Scan.visit scan).totalWeight =
      wrapInt (healthy.instances.map (·.weight)).sum := by
    have hzero : scan.totalWeight = wrapInt 0 := rfl
    rw [total_loop scan hzero, zero_add]
  have hweights : (choose healthy lb).2.currentWeights =
      (healthy.instances.foldl Scan.visit scan).currentWeights.set inst.getId
        (wrapInt (credit lb.currentWeights inst -
          wrapInt (healthy.instances.map (·.weight)).sum)) := by
    have hne : inst.getId.isEmpty = false := List.isEmpty_eq_false_iff.mpr (inst.getId_ne_nil)
    change (if (healthy.instances.foldl Scan.visit scan).selectedId.isEmpty then _ else _) = _
    rw [hsel, hne, htotal, value_scan hids hi]
    rfl
  refine ⟨?_, ?_, ?_⟩
  · change (healthy.withId (healthy.instances.foldl Scan.visit scan).selectedId).getD _ = inst
    rw [hsel, withId_getId hids hi]
    rfl
  · intro x hx
    rw [hweights, Numbers.value_set]
    by_cases hxi : x = inst
    · rw [if_pos (congrArg _ hxi), if_pos hxi, hxi]
    · have hid : x.getId ≠ inst.getId := fun h => hxi (List.inj_on_of_nodup_map hids hx hi h)
      rw [if_neg hid, if_neg hxi, value_scan hids hx]
  · intro id hid
    have hne : id ≠ inst.getId := by
      rintro rfl
      exact hid (List.mem_map_of_mem hi)
    rw [hweights, Numbers.value_set, if_neg hne, value_loop_of_notMem scan hid]
    exact Numbers.value_ensureAll _ _ _

end Choose

/-- The calls of `select` on one list, and the balancer after them. -/
def selects (instances : List ServiceInstance) :
    Nat → WeightedRoundRobinLoadBalancer →
      List (Except Text ServiceInstance) × WeightedRoundRobinLoadBalancer
  | 0, lb => ([], lb)
  | t + 1, lb =>
    let (results, lb) := selects instances t lb
    let (result, lb) := select instances lb
    (results ++ [result], lb)

theorem selects_length (instances : List ServiceInstance) (t : Nat)
    (lb : WeightedRoundRobinLoadBalancer) : (selects instances t lb).1.length = t := by
  induction t with
  | zero => rfl
  | succ t ih => simp [selects, ih]

theorem selects_add (instances : List ServiceInstance) (t u : Nat)
    (lb : WeightedRoundRobinLoadBalancer) :
    (selects instances (t + u) lb).1.take t = (selects instances t lb).1 := by
  induction u with
  | zero => simp [List.take_of_length_le, selects_length]
  | succ u ih =>
    have hlen := selects_length instances (t + u) lb
    rw [← ih]
    change ((selects instances (t + u) lb).1 ++ _).take t = _
    exact List.take_append_of_le_length (by omega)

/-- The counters of the healthy instances are those of a schedule. -/
structure Tracks (healthy : HealthyInstances) (c : ServiceInstance → Int)
    (lb : WeightedRoundRobinLoadBalancer) : Prop where
  counters : ∀ x ∈ healthy.instances, lb.currentWeights.value x.getId = c x
  others : ∀ id, id ∉ healthy.instances.map (·.getId) → lb.currentWeights.value id = 0

/-- What is asked of the instances: their ids tell them apart, the weights are
positive, and the counters fit an `int`. -/
structure Weighted (instances : List ServiceInstance) : Prop where
  ids : (instances.map (·.getId)).Nodup
  positive : ∀ inst ∈ instances, 0 < inst.weight
  bounded : instances.length * (instances.map (·.weight)).sum < 2 ^ 31

section Run

open SmoothRoundRobin

variable {healthy : HealthyInstances} {lb : WeightedRoundRobinLoadBalancer}
variable {c : ServiceInstance → Int} {picks : List ServiceInstance}

theorem Weighted.sum_eq {instances : List ServiceInstance} (h : Weighted instances) :
    ∑ x ∈ instances.toFinset, x.weight = (instances.map (·.weight)).sum :=
  List.sum_toFinset _ h.ids.of_map

theorem Weighted.pos {instances : List ServiceInstance} (h : Weighted instances) :
    ∀ x ∈ instances.toFinset, 0 < x.weight := by
  intro x hx
  exact h.positive x (List.mem_toFinset.mp hx)

theorem Weighted.total_lt {instances : List ServiceInstance} (h : Weighted instances)
    {x : ServiceInstance} (hx : x ∈ instances) :
    x.weight ≤ (instances.map (·.weight)).sum ∧ (instances.map (·.weight)).sum < 2 ^ 31 := by
  have hle : x.weight ≤ (instances.map (·.weight)).sum := by
    rw [← h.sum_eq]
    exact Finset.single_le_sum (f := ServiceInstance.weight) (fun y hy => (h.pos y hy).le)
      (List.mem_toFinset.mpr hx)
  have hn : 1 ≤ (instances.length : Int) := by
    have := List.length_pos_of_mem hx
    omega
  have hsum : 0 ≤ (instances.map (·.weight)).sum := (h.positive x hx).le.trans hle
  exact ⟨hle, lt_of_le_of_lt (le_mul_of_one_le_left hsum hn) h.bounded⟩

theorem credit_eq (hw : Weighted healthy.instances)
    (hs : Schedule healthy.instances.toFinset (·.weight) picks c) (ht : Tracks healthy c lb)
    {x : ServiceInstance} (hx : x ∈ healthy.instances) :
    credit lb.currentWeights x = c x + x.weight ∧ c x + x.weight < 2 ^ 31 := by
  have hx' := List.mem_toFinset.mpr hx
  have hlow := hs.neg_lt hw.pos x hx'
  have hup := hs.le_card hw.pos hx'
  rw [hw.sum_eq] at hlow hup
  rw [List.toFinset_card_of_nodup hw.ids.of_map, sub_one_mul] at hup
  obtain ⟨hle, hlt⟩ := hw.total_lt hx
  have hb := hw.bounded
  have hpos := hw.positive x hx
  have hshare : share x = x.weight := if_pos hpos
  refine ⟨?_, by omega⟩
  rw [credit, ht.counters x hx, hshare]
  apply wrapInt_of_range
  · omega
  · omega

theorem choose_tracks (hw : Weighted healthy.instances)
    (hs : Schedule healthy.instances.toFinset (·.weight) picks c) (ht : Tracks healthy c lb) :
    ∃ c', Schedule healthy.instances.toFinset (·.weight) (picks ++ [(choose healthy lb).1]) c' ∧
      Tracks healthy c' (choose healthy lb).2 := by
  cases hbest : bestOf (credit lb.currentWeights) 0 healthy.instances with
  | none =>
    obtain ⟨x, hx, hpos⟩ := hs.exists_pos hw.pos
      ((List.toFinset_nonempty_iff _).mpr healthy.nonempty)
    have hx' := List.mem_toFinset.mp hx
    have hle := bestOf_eq_none.mp hbest x hx'
    rw [(credit_eq hw hs ht hx').1] at hle
    exact absurd hpos (not_lt.mpr hle)
  | some inst =>
    have hi := bestOf_mem hbest
    obtain ⟨hpick, hin, hout⟩ := choose_best hw.ids hbest
    have hmax : ∀ x ∈ healthy.instances.toFinset, c x + x.weight ≤ c inst + inst.weight := by
      intro x hx
      have hx' := List.mem_toFinset.mp hx
      have hle := bestOf_max hbest x hx'
      rwa [(credit_eq hw hs ht hx').1, (credit_eq hw hs ht hi).1] at hle
    rw [hpick]
    refine ⟨_, .snoc hs (List.mem_toFinset.mpr hi) hmax, ?_, ?_⟩
    · intro x hx
      rw [hin x hx, settle, hw.sum_eq]
      by_cases hxi : x = inst
      · subst hxi
        obtain ⟨hc, hup⟩ := credit_eq hw hs ht hx
        have hcpos := (bestOf_eq_some hbest).1
        rw [hc] at hcpos
        obtain ⟨hle, hlt⟩ := hw.total_lt hx
        have hpos := hw.positive x hx
        rw [if_pos rfl, hc, Function.update_self, wrapInt_of_range (by omega) hlt]
        exact wrapInt_of_range (by omega) (by omega)
      · rw [if_neg hxi, Function.update_of_ne hxi, (credit_eq hw hs ht hx).1]
    · intro id hid
      rw [hout id hid]
      exact ht.others id hid

theorem selects_tracks {instances : List ServiceInstance}
    (hl : healthyInstances instances = .ok healthy) (hw : Weighted healthy.instances) (t : Nat)
    (lb : WeightedRoundRobinLoadBalancer) :
    ∃ picks c, (selects instances t lb.reset).1 = picks.map .ok ∧
      Schedule healthy.instances.toFinset (·.weight) picks c ∧
      Tracks healthy c (selects instances t lb.reset).2 := by
  induction t with
  | zero => exact ⟨[], 0, rfl, .nil, fun _ _ => rfl, fun _ _ => rfl⟩
  | succ t ih =>
    obtain ⟨picks, c, hpicks, hs, ht⟩ := ih
    obtain ⟨c', hs', ht'⟩ := choose_tracks hw hs ht
    have hsel : select instances (selects instances t lb.reset).2 =
        (.ok (choose healthy (selects instances t lb.reset).2).1,
          (choose healthy (selects instances t lb.reset).2).2) := by
      simp [select, selectHealthy, hl]
    refine ⟨_, c', ?_, hs', ?_⟩
    · simp [selects, hpicks, hsel]
    · simpa [selects, hsel] using ht'

end Run

def healthyOf (instances : List ServiceInstance) : List ServiceInstance :=
  instances.filter (·.isHealthy)

/-- The number of calls in one block. -/
def blockLength (instances : List ServiceInstance) : Nat :=
  Int.toNat ((healthyOf instances).map (·.weight)).sum

section Blocks

variable {instances : List ServiceInstance}

theorem selects_schedule (hw : Weighted (healthyOf instances)) (hne : healthyOf instances ≠ [])
    (t : Nat) (lb : WeightedRoundRobinLoadBalancer) :
    ∃ (picks : List ServiceInstance) (c : ServiceInstance → Int),
      (selects instances t lb.reset).1 = picks.map .ok ∧ picks.length = t ∧
      SmoothRoundRobin.Schedule (healthyOf instances).toFinset (·.weight) picks c ∧
      (∀ x ∈ healthyOf instances,
        (selects instances t lb.reset).2.currentWeights.value x.getId = c x) ∧
      ∀ id, id ∉ (healthyOf instances).map (·.getId) →
        (selects instances t lb.reset).2.currentWeights.value id = 0 := by
  obtain ⟨inst, hi⟩ := List.exists_mem_of_ne_nil _ hne
  obtain ⟨hmem, hh⟩ := List.mem_filter.mp hi
  obtain ⟨healthy, hok, hl⟩ := healthyInstances_ok hmem hh
  change healthy.instances = healthyOf instances at hl
  rw [← hl] at hw ⊢
  obtain ⟨picks, c, hpicks, hs, ht⟩ := selects_tracks hok hw t lb
  refine ⟨picks, c, hpicks, ?_, hs, ht.counters, ht.others⟩
  have hlen := selects_length instances t lb.reset
  rwa [hpicks, List.length_map] at hlen

theorem Weighted.blockLength_eq (hw : Weighted (healthyOf instances)) :
    (blockLength instances : Int) = ∑ x ∈ (healthyOf instances).toFinset, x.weight := by
  have hnonneg : 0 ≤ ∑ x ∈ (healthyOf instances).toFinset, x.weight :=
    Finset.sum_nonneg fun x hx => (hw.pos x hx).le
  rw [hw.sum_eq] at hnonneg ⊢
  exact Int.toNat_of_nonneg hnonneg

theorem count_ok (picks : List ServiceInstance) (inst : ServiceInstance) :
    (picks.map .ok : List (Except Text ServiceInstance)).count (.ok inst) = picks.count inst := by
  apply List.count_map_of_injective
  intro a b h
  cases h
  rfl

theorem count_blocks (hw : Weighted (healthyOf instances)) (lb : WeightedRoundRobinLoadBalancer)
    {inst : ServiceInstance} (hi : inst ∈ healthyOf instances) (m : Nat) :
    ((selects instances (m * blockLength instances) lb.reset).1.count (.ok inst) : Int) =
      m * inst.weight := by
  obtain ⟨picks, c, hpicks, hlen, hs, -⟩ :=
    selects_schedule hw (List.ne_nil_of_mem hi) (m * blockLength instances) lb
  rw [hpicks, count_ok]
  apply hs.count_eq hw.pos
  · rw [hlen, ← hw.blockLength_eq]
    exact Int.natCast_mul _ _
  · exact List.mem_toFinset.mpr hi

/-- In every block each healthy instance is selected as often as its weight says
and the counters come back to zero, and on the way no instance is ahead by a
whole turn. -/
theorem smooth_exact (instances : List ServiceInstance) (lb : WeightedRoundRobinLoadBalancer)
    (hw : Weighted (healthyOf instances)) :
    (∀ m, ∀ inst ∈ healthyOf instances,
      (((selects instances ((m + 1) * blockLength instances) lb.reset).1.drop
        (m * blockLength instances)).count (.ok inst) : Int) = inst.weight) ∧
    (∀ m id, (selects instances (m * blockLength instances) lb.reset).2.currentWeights.value id =
      0) ∧
    ∀ t, ∀ inst ∈ healthyOf instances,
      blockLength instances * ((selects instances t lb.reset).1.count (.ok inst) : Int) <
        t * inst.weight + blockLength instances := by
  refine ⟨?_, ?_, ?_⟩
  · intro m inst hi
    have hblock := count_blocks hw lb hi (m + 1)
    have hbefore := count_blocks hw lb hi m
    rw [← List.take_append_drop (m * blockLength instances)
      (selects instances ((m + 1) * blockLength instances) lb.reset).1, List.count_append] at hblock
    rw [Nat.succ_mul] at hblock ⊢
    rw [selects_add] at hblock
    push_cast at hblock
    rw [hbefore, add_mul] at hblock
    omega
  · intro m id
    by_cases hne : healthyOf instances = []
    · have hzero : blockLength instances = 0 := by
        rw [blockLength, hne]
        rfl
      rw [hzero]
      rfl
    · obtain ⟨picks, c, -, hlen, hs, hin, hout⟩ :=
        selects_schedule hw hne (m * blockLength instances) lb
      by_cases hid : id ∈ (healthyOf instances).map (·.getId)
      · obtain ⟨x, hx, rfl⟩ := List.mem_map.mp hid
        rw [hin x hx]
        have hturns : (picks.length : Int) =
            m * ∑ x ∈ (healthyOf instances).toFinset, x.weight := by
          rw [hlen, ← hw.blockLength_eq]
          exact Int.natCast_mul _ _
        exact hs.eq_zero hw.pos hturns x (List.mem_toFinset.mpr hx)
      · exact hout id hid
  · intro t inst hi
    obtain ⟨picks, c, hpicks, hlen, hs, -⟩ := selects_schedule hw (List.ne_nil_of_mem hi) t lb
    have hlt := hs.count_lt hw.pos (List.mem_toFinset.mpr hi)
    rwa [← hw.blockLength_eq, hlen, ← count_ok, ← hpicks] at hlt

/-- Two healthy instances around one that is not. -/
def skewedInstances : List ServiceInstance :=
  [⟨text "calc", text "10.0.0.1", 8001, 2, true, 0, []⟩,
    ⟨text "calc", text "10.0.0.2", 8001, 7, false, 0, []⟩,
    ⟨text "calc", text "10.0.0.3", 8001, 1, true, 0, []⟩]

theorem smooth_exact_skewed :
    (∀ m, ∀ inst ∈ healthyOf skewedInstances,
      (((selects skewedInstances ((m + 1) * 3) (WeightedRoundRobinLoadBalancer.reset {})).1.drop
        (m * 3)).count (.ok inst) : Int) = inst.weight) ∧
    (∀ m id, (selects skewedInstances (m * 3)
      (WeightedRoundRobinLoadBalancer.reset {})).2.currentWeights.value id = 0) ∧
    ∀ t, ∀ inst ∈ healthyOf skewedInstances,
      3 * ((selects skewedInstances t (WeightedRoundRobinLoadBalancer.reset {})).1.count
        (.ok inst) : Int) < t * inst.weight + 3 :=
  smooth_exact skewedInstances {} ⟨by decide, by decide, by decide⟩

end Blocks

end Mprpc.SmoothWeights
