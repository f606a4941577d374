import Mprpc.LoadBalancers

namespace Mprpc.HashRing

open Transport Library OrderedMap ConsistentHashLoadBalancer

def position (key : Text) : Position :=
  (ConsistentHashLoadBalancer.hash (if key.isEmpty then text "default" else key)).toFin

/-- The assignments that build the ring, in their order. -/
def nodes (virtualNodes : Int) (instances : List ServiceInstance) : List (Position × Text) :=
  (instances.filter (·.isHealthy)).flatMap fun inst =>
    (List.range virtualNodes.toNat).map fun i =>
      ((ConsistentHashLoadBalancer.hash (virtualKey inst.getId i)).toFin, inst.getId)

def ring (virtualNodes : Int) (instances : List ServiceInstance) : OrderedMap Position Text :=
  OrderedMap.empty.assign (nodes virtualNodes instances)

theorem rebuildHashRing_eq (instances : List ServiceInstance) (lb : ConsistentHashLoadBalancer) :
    lb.rebuildHashRing instances = { lb with hashRing := ring lb.virtualNodes instances } := by
  have hfold : ∀ m : OrderedMap Position Text,
      instances.foldl (fun m inst =>
        if !inst.isHealthy then m
        else (List.range lb.virtualNodes.toNat).foldl (fun m i =>
          m.insert (ConsistentHashLoadBalancer.hash (virtualKey inst.getId i)).toFin inst.getId) m)
        m = m.assign (nodes lb.virtualNodes instances) := by
    induction instances with
    | nil => intro m; rfl
    | cons inst instances ih =>
      intro m
      rw [List.foldl_cons, ih]
      cases h : inst.isHealthy with
      | false => simp [nodes, h]
      | true => simp [nodes, h, assign, List.foldl_append, List.foldl_map]
  unfold rebuildHashRing
  rw [hfold]
  rfl

theorem mem_nodes {virtualNodes : Int} {instances : List ServiceInstance} {e : Position × Text} :
    e ∈ nodes virtualNodes instances ↔ ∃ inst ∈ instances, inst.isHealthy ∧
      ∃ i < virtualNodes.toNat,
        ((ConsistentHashLoadBalancer.hash (virtualKey inst.getId i)).toFin, inst.getId) = e := by
  simp [nodes, and_assoc]

theorem nodes_filter (virtualNodes : Int) (instances : List ServiceInstance) (q : Text → Bool) :
    nodes virtualNodes (instances.filter fun inst => q inst.getId) =
      (nodes virtualNodes instances).filter fun e => q e.2 := by
  induction instances with
  | nil => rfl
  | cons inst instances ih =>
    simp only [nodes] at ih ⊢
    cases hh : inst.isHealthy <;> cases hq : q inst.getId <;>
      simp [hh, hq, ih, List.filter_map, Function.comp_def, -List.filter_filter]

/-- What the balancer answers from a ring. -/
def answer (healthy : HealthyInstances) (found : Option (Position × Text)) : ServiceInstance :=
  match found with
  | none => healthy.first
  | some e => (healthy.withId e.2).getD healthy.first

theorem chooseByKey_fst (key : Text) (healthy : HealthyInstances)
    (lb : ConsistentHashLoadBalancer) :
    (chooseByKey key healthy lb).1 = answer healthy
      ((if lb.hashRing.isEmpty then ring lb.virtualNodes healthy.instances
        else lb.hashRing).around (position key)) := by
  have hring : (if lb.hashRing.isEmpty then lb.rebuildHashRing healthy.instances else lb).hashRing =
      if lb.hashRing.isEmpty then ring lb.virtualNodes healthy.instances else lb.hashRing := by
    rw [rebuildHashRing_eq]
    split <;> rfl
  rw [← hring]
  unfold chooseByKey answer
  dsimp only [position]
  split
  · next h => rw [h]
  · next p id h =>
    rw [h]
    change _ = (healthy.withId id).getD healthy.first
    cases healthy.withId id <;> rfl

theorem chooseByKey_ring (key : Text) (healthy : HealthyInstances)
    (lb : ConsistentHashLoadBalancer) :
    (chooseByKey key healthy lb).2.virtualNodes = lb.virtualNodes ∧
      ((chooseByKey key healthy lb).2.hashRing = lb.hashRing ∨
        (chooseByKey key healthy lb).2.hashRing = ring lb.virtualNodes healthy.instances) := by
  have hstart : ∀ start : ConsistentHashLoadBalancer,
      start = (if lb.hashRing.isEmpty then lb.rebuildHashRing healthy.instances else lb) →
      start.virtualNodes = lb.virtualNodes ∧ (start.hashRing = lb.hashRing ∨
        start.hashRing = ring lb.virtualNodes healthy.instances) := by
    rintro start rfl
    rw [rebuildHashRing_eq]
    split
    · exact ⟨rfl, .inr rfl⟩
    · exact ⟨rfl, .inl rfl⟩
  unfold chooseByKey
  generalize hs : (if lb.hashRing.isEmpty then lb.rebuildHashRing healthy.instances else lb) = start
  obtain ⟨hv, hr⟩ := hstart start hs.symm
  dsimp only
  split
  · exact ⟨hv, hr⟩
  · split
    · exact ⟨hv, hr⟩
    · rw [rebuildHashRing_eq]
      refine ⟨hv, .inr ?_⟩
      rw [← hv]

theorem withId_some {healthy : HealthyInstances} {id : Text} {inst : ServiceInstance}
    (h : healthy.withId id = some inst) : inst ∈ healthy.instances ∧ inst.getId = id :=
  ⟨List.mem_of_find?_eq_some h, by simpa using List.find?_some h⟩

theorem withId_of_mem {healthy : HealthyInstances} {inst : ServiceInstance}
    (hi : inst ∈ healthy.instances) : ∃ x, healthy.withId inst.getId = some x := by
  cases h : healthy.withId inst.getId with
  | none =>
    rw [HealthyInstances.withId, List.find?_eq_none] at h
    simpa using h inst hi
  | some x => exact ⟨x, rfl⟩

theorem withId_first (healthy : HealthyInstances) :
    healthy.withId healthy.first.getId = some healthy.first := by
  obtain ⟨l, hne, hh⟩ := healthy
  cases l with
  | nil => exact absurd rfl hne
  | cons x xs => simp [HealthyInstances.withId, HealthyInstances.first]

/-- On a ring of the same list the entry found names one of its instances. -/
theorem withId_of_around {virtualNodes : Int} {healthy : HealthyInstances} {k : Position}
    {e : Position × Text} (h : (ring virtualNodes healthy.instances).around k = some e) :
    ∃ inst, healthy.withId e.2 = some inst ∧
      answer healthy ((ring virtualNodes healthy.instances).around k) = inst := by
  obtain ⟨x, hx, -, i, -, rfl⟩ := mem_nodes.mp (around_assign h).1
  obtain ⟨inst, hinst⟩ := withId_of_mem hx
  refine ⟨inst, hinst, ?_⟩
  rw [h]
  change (healthy.withId x.getId).getD healthy.first = inst
  rw [hinst]
  rfl

end Mprpc.HashRing
