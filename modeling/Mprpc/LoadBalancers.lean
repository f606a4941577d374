import Mathlib.Logic.Function.Basic
import Mathlib.Order.Fin.Basic
import Mathlib.Tactic.NormNum
import Mprpc.Library.OrderedMap
import Mprpc.LoadBalancer

namespace Mprpc

open Transport Library

/-- Two's complement arithmetic of a 32-bit `int`. -/
def wrapInt (i : Int) : Int := i.bmod (2 ^ 32)

theorem wrapInt_of_range {i : Int} (hl : -2 ^ 31 ≤ i) (hu : i < 2 ^ 31) : wrapInt i = i := by
  apply Int.bmod_eq_of_le
  · norm_num at *
    omega
  · norm_num at *
    omega

theorem wrapInt_add (a b : Int) : wrapInt (wrapInt a + b) = wrapInt (a + b) := Int.bmod_add_bmod

/-- A `std::unordered_map` from ids to numbers. -/
abbrev Numbers := Text → Option Int

namespace Numbers

/-- The entry of an id, made with the value 0 when it is not there. -/
def ensure (m : Numbers) (id : Text) : Numbers :=
  if m id = none then Function.update m id (some 0) else m

def ensureAll (m : Numbers) (instances : List ServiceInstance) : Numbers :=
  instances.foldl (fun m inst => m.ensure inst.getId) m

def value (m : Numbers) (id : Text) : Int := (m id).getD 0

def set (m : Numbers) (id : Text) (i : Int) : Numbers := Function.update m id (some i)

variable (m : Numbers) (id : Text)

theorem value_set (i : Int) (id' : Text) :
    (m.set id i).value id' = if id' = id then i else m.value id' := by
  by_cases h : id' = id
  · subst h
    simp [value, set]
  · simp [value, set, h]

theorem value_ensure (id' : Text) : (m.ensure id).value id' = m.value id' := by
  by_cases h : m id = none
  · by_cases hid : id' = id
    · subst hid
      simp [value, ensure, h]
    · simp [value, ensure, h, hid]
  · simp [value, ensure, h]

theorem value_ensureAll (instances : List ServiceInstance) :
    (m.ensureAll instances).value id = m.value id := by
  induction instances generalizing m with
  | nil => rfl
  | cons inst instances ih => exact (ih (m.ensure inst.getId)).trans (value_ensure m _ id)

end Numbers

structure RoundRobinLoadBalancer where
  currentIndex : UInt64 := 0
deriving DecidableEq, Repr

namespace RoundRobinLoadBalancer

def choose (healthy : HealthyInstances) (lb : RoundRobinLoadBalancer) :
    ServiceInstance × RoundRobinLoadBalancer :=
  let index := lb.currentIndex.toNat % healthy.instances.length
  have h : index < healthy.instances.length :=
    Nat.mod_lt _ (List.length_pos_iff.mpr healthy.nonempty)
  (healthy.instances.get ⟨index, h⟩, { lb with currentIndex := lb.currentIndex + 1 })

def select : List ServiceInstance → RoundRobinLoadBalancer →
    Except Text ServiceInstance × RoundRobinLoadBalancer := selectHealthy choose

def reset (lb : RoundRobinLoadBalancer) : RoundRobinLoadBalancer := { lb with currentIndex := 0 }

end RoundRobinLoadBalancer

structure WeightedRoundRobinLoadBalancer where
  currentWeights : Numbers := fun _ => none

namespace WeightedRoundRobinLoadBalancer

/-- The variables of the loop over the healthy instances. -/
structure Scan where
  currentWeights : Numbers
  totalWeight : Int := 0
  maxWeight : Int := 0
  selectedId : Text := []

/-- The own weight counts as 1 when it is not positive, but the total takes it
as it is. -/
def Scan.visit (scan : Scan) (inst : ServiceInstance) : Scan :=
  let id := inst.getId
  let weight := if inst.weight > 0 then inst.weight else 1
  let totalWeight := wrapInt (scan.totalWeight + inst.weight)
  let current := wrapInt (scan.currentWeights.value id + weight)
  let currentWeights := scan.currentWeights.set id current
  if current > scan.maxWeight then ⟨currentWeights, totalWeight, current, id⟩
  else ⟨currentWeights, totalWeight, scan.maxWeight, scan.selectedId⟩

def choose (healthy : HealthyInstances) (lb : WeightedRoundRobinLoadBalancer) :
    ServiceInstance × WeightedRoundRobinLoadBalancer :=
  let weights := lb.currentWeights.ensureAll healthy.instances
  let scan := healthy.instances.foldl Scan.visit { currentWeights := weights }
  let weights :=
    if scan.selectedId.isEmpty then scan.currentWeights
    else scan.currentWeights.set scan.selectedId
      (wrapInt (scan.currentWeights.value scan.selectedId - scan.totalWeight))
  ((healthy.withId scan.selectedId).getD healthy.first, { lb with currentWeights := weights })

def select : List ServiceInstance → WeightedRoundRobinLoadBalancer →
    Except Text ServiceInstance × WeightedRoundRobinLoadBalancer := selectHealthy choose

def reset (lb : WeightedRoundRobinLoadBalancer) : WeightedRoundRobinLoadBalancer :=
  { lb with currentWeights := fun _ => none }

end WeightedRoundRobinLoadBalancer

structure LeastConnectionLoadBalancer where
  connectionCounts : Numbers := fun _ => none

namespace LeastConnectionLoadBalancer

def intMax : Int := 2 ^ 31 - 1

def choose (healthy : HealthyInstances) (lb : LeastConnectionLoadBalancer) :
    ServiceInstance × LeastConnectionLoadBalancer :=
  let counts := lb.connectionCounts.ensureAll healthy.instances
  let best := healthy.instances.foldl (fun (best : Int × ServiceInstance) inst =>
      let connections := counts.value inst.getId
      if connections < best.1 then (connections, inst) else best)
    (intMax, healthy.first)
  (best.2, { lb with connectionCounts := counts })

def select : List ServiceInstance → LeastConnectionLoadBalancer →
    Except Text ServiceInstance × LeastConnectionLoadBalancer := selectHealthy choose

def updateStats (instanceId : Text) (connectionStart : Bool) (lb : LeastConnectionLoadBalancer) :
    LeastConnectionLoadBalancer :=
  let counts := lb.connectionCounts.ensure instanceId
  let current := counts.value instanceId
  if connectionStart then
    { lb with connectionCounts := counts.set instanceId (wrapInt (current + 1)) }
  else if current > 0 then
    { lb with connectionCounts := counts.set instanceId (wrapInt (current - 1)) }
  else { lb with connectionCounts := counts }

def reset (lb : LeastConnectionLoadBalancer) : LeastConnectionLoadBalancer :=
  { lb with connectionCounts := fun _ => none }

def getName : Text := text "LeastConnection"

end LeastConnectionLoadBalancer

/-- A key of the hash ring: a `uint32_t` in its order. -/
abbrev Position := Fin UInt32.size

structure ConsistentHashLoadBalancer where
  virtualNodes : Int := 100
  hashRing : OrderedMap Position Text := .empty
  lastKey : Text := []

namespace ConsistentHashLoadBalancer

/-- A `char` is signed, so that its cast to `uint32_t` extends the sign. -/
def hash (key : Text) : UInt32 :=
  key.foldl (fun hash c => (hash ^^^ c.toInt8.toInt32.toUInt32) * 16777619) 2166136261

def virtualKey (instanceId : Text) (i : Nat) : Text :=
  instanceId ++ text "#" ++ text (toString i)

def rebuildHashRing (instances : List ServiceInstance) (lb : ConsistentHashLoadBalancer) :
    ConsistentHashLoadBalancer :=
  let hashRing := instances.foldl (fun ring inst =>
      if !inst.isHealthy then ring
      else (List.range lb.virtualNodes.toNat).foldl (fun ring i =>
        ring.insert (hash (virtualKey inst.getId i)).toFin inst.getId) ring)
    .empty
  { lb with hashRing := hashRing }

def chooseByKey (key : Text) (healthy : HealthyInstances) (lb : ConsistentHashLoadBalancer) :
    ServiceInstance × ConsistentHashLoadBalancer :=
  let lb := if lb.hashRing.isEmpty then lb.rebuildHashRing healthy.instances else lb
  let actualKey := if key.isEmpty then text "default" else key
  -- `around` is `lower_bound`, then `begin` at the end of the ring
  match lb.hashRing.around (hash actualKey).toFin with
  | none => (healthy.first, lb)
  | some (_, selectedId) =>
    let lb := { lb with lastKey := actualKey }
    match healthy.withId selectedId with
    | some inst => (inst, lb)
    | none => (healthy.first, lb.rebuildHashRing healthy.instances)

def selectByKey (instances : List ServiceInstance) (key : Text) (lb : ConsistentHashLoadBalancer) :
    Except Text ServiceInstance × ConsistentHashLoadBalancer :=
  selectHealthy (chooseByKey key) instances lb

def select (instances : List ServiceInstance) (lb : ConsistentHashLoadBalancer) :
    Except Text ServiceInstance × ConsistentHashLoadBalancer :=
  lb.selectByKey instances lb.lastKey

def reset (lb : ConsistentHashLoadBalancer) : ConsistentHashLoadBalancer :=
  { lb with hashRing := .empty, lastKey := [] }

end ConsistentHashLoadBalancer

end Mprpc
