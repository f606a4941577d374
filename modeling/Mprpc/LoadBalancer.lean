import Mprpc.Transport

namespace Mprpc

open Transport

structure ServiceInstance where
  serviceName : Text
  host : Text
  port : UInt16
  weight : Int
  isHealthy : Bool
  lastHeartbeat : UInt64
  metadata : List (Text × Text)
deriving DecidableEq, Repr

def ServiceInstance.getId (inst : ServiceInstance) : Text :=
  inst.host ++ text ":" ++ text (toString inst.port.toNat)

theorem ServiceInstance.getId_ne_nil (inst : ServiceInstance) : inst.getId ≠ [] := by
  have hcolon : text ":" ≠ [] := by decide
  simp [ServiceInstance.getId, hcolon]

structure LoadBalancer (σ : Type) where
  select : List ServiceInstance → σ → Except Text ServiceInstance × σ
  getName : Text
  updateStats : Text → Bool → σ → σ

/-- The vector `healthy_instances` of a `select` that has not thrown. -/
structure HealthyInstances where
  instances : List ServiceInstance
  nonempty : instances ≠ []
  healthy : ∀ inst ∈ instances, inst.isHealthy

/-- How every `select` starts: it keeps the healthy instances, and throws when
there is none. -/
def healthyInstances (instances : List ServiceInstance) : Except Text HealthyInstances :=
  if instances.isEmpty then .error (text "No available service instances")
  else if h : instances.filter (·.isHealthy) = [] then
    .error (text "No healthy service instances")
  else .ok ⟨instances.filter (·.isHealthy), h, fun _ hi => (List.mem_filter.mp hi).2⟩

def HealthyInstances.first (healthy : HealthyInstances) : ServiceInstance :=
  healthy.instances.head healthy.nonempty

theorem HealthyInstances.first_mem (healthy : HealthyInstances) :
    healthy.first ∈ healthy.instances := List.head_mem healthy.nonempty

/-- The loop that returns the instance with an id. -/
def HealthyInstances.withId (healthy : HealthyInstances) (id : Text) : Option ServiceInstance :=
  healthy.instances.find? (·.getId = id)

/-- Every `select` goes on with the healthy instances. -/
def selectHealthy {σ : Type} (choose : HealthyInstances → σ → ServiceInstance × σ)
    (instances : List ServiceInstance) (s : σ) : Except Text ServiceInstance × σ :=
  match healthyInstances instances with
  | .error e => (.error e, s)
  | .ok healthy => (.ok (choose healthy s).1, (choose healthy s).2)

section

variable {σ : Type} (choose : HealthyInstances → σ → ServiceInstance × σ)
variable {instances : List ServiceInstance}

theorem healthyInstances_error (h : ∀ inst ∈ instances, inst.isHealthy = false) :
    ∃ e, healthyInstances instances = .error e := by
  by_cases he : instances.isEmpty
  · exact ⟨text "No available service instances", by simp [healthyInstances, he]⟩
  · have hf : instances.filter (·.isHealthy) = [] := by simpa using h
    exact ⟨text "No healthy service instances", by simp [healthyInstances, he, hf]⟩

theorem healthyInstances_ok {inst : ServiceInstance} (hi : inst ∈ instances)
    (hh : inst.isHealthy) :
    ∃ healthy, healthyInstances instances = .ok healthy ∧
      healthy.instances = instances.filter (·.isHealthy) := by
  have hf : instances.filter (·.isHealthy) ≠ [] :=
    List.ne_nil_of_mem (List.mem_filter.mpr ⟨hi, hh⟩)
  have he : instances.isEmpty = false := by
    rw [List.isEmpty_eq_false_iff]
    exact List.ne_nil_of_mem hi
  exact ⟨⟨_, hf, fun _ h => (List.mem_filter.mp h).2⟩, by simp [healthyInstances, he, hf], rfl⟩

theorem selectHealthy_error (h : ∀ inst ∈ instances, inst.isHealthy = false) (s : σ) :
    ∃ e, selectHealthy choose instances s = (.error e, s) := by
  obtain ⟨e, he⟩ := healthyInstances_error h
  exact ⟨e, by simp [selectHealthy, he]⟩

theorem selectHealthy_ok {inst : ServiceInstance} (hi : inst ∈ instances) (hh : inst.isHealthy)
    (s : σ) :
    ∃ healthy, healthy.instances = instances.filter (·.isHealthy) ∧
      selectHealthy choose instances s = (.ok (choose healthy s).1, (choose healthy s).2) := by
  obtain ⟨healthy, hok, hl⟩ := healthyInstances_ok hi hh
  exact ⟨healthy, hl, by simp [selectHealthy, hok]⟩

end

end Mprpc
