import Mprpc.KeyStability

namespace Mprpc.DiscoveryOrder

open Transport Library OrderedMap ConsistentHashLoadBalancer HashRing KeyStability

/-- The id that a new balancer routes a key to. -/
def chosen (virtualNodes : Int) (instances : List ServiceInstance) (key : Text) :
    Except Text Text :=
  ((fresh virtualNodes).selectByKey instances key).1.map (·.getId)

/-- The virtual nodes at the position that follows the key are all of one id. -/
def Unshared (virtualNodes : Int) (instances : List ServiceInstance) (key : Text) : Prop :=
  ∀ e ∈ nodes virtualNodes instances,
    (∀ f ∈ nodes virtualNodes instances, NoLater (position key) e.1 f.1) →
    ∀ e' ∈ nodes virtualNodes instances, e'.1 = e.1 → e'.2 = e.2

variable {virtualNodes : Int} {instances shuffled : List ServiceInstance} {key : Text}

section Answers

theorem chosen_of_around {e : Position × Text}
    (h : (ring virtualNodes instances).around (position key) = some e) :
    chosen virtualNodes instances key = .ok e.2 := by
  obtain ⟨x, hx, hh, -⟩ := mem_nodes.mp (around_assign h).1
  obtain ⟨healthy, hok, hl⟩ := healthyInstances_ok hx hh
  rw [← ring_healthy hl] at h
  obtain ⟨inst, hinst, hanswer⟩ := withId_of_around h
  have hselect : ((fresh virtualNodes).selectByKey instances key).1 = .ok inst :=
    (selectByKey_eq hok _).trans (congrArg _ hanswer)
  rw [chosen, hselect, ← (withId_some hinst).2]
  rfl

theorem chosen_of_unhealthy (h : ∀ inst ∈ instances, inst.isHealthy = false) :
    chosen virtualNodes instances key =
      .error (if instances.isEmpty then text "No available service instances"
        else text "No healthy service instances") := by
  have hnone : instances.filter (·.isHealthy) = [] := by simpa using h
  cases hempty : instances.isEmpty <;>
    simp [chosen, selectByKey, selectHealthy, healthyInstances, hempty, hnone, Except.map]

theorem around_of_healthy (hv : 1 ≤ virtualNodes) {inst : ServiceInstance} (hi : inst ∈ instances)
    (hh : inst.isHealthy) (k : Position) :
    ∃ e, (ring virtualNodes instances).around k = some e := by
  obtain ⟨healthy, -, hl⟩ := healthyInstances_ok hi hh
  rw [← ring_healthy hl]
  exact ring_some hv healthy k

end Answers

section Orders

theorem mem_nodes_perm (h : shuffled.Perm instances) {e : Position × Text} :
    e ∈ nodes virtualNodes shuffled ↔ e ∈ nodes virtualNodes instances := by
  simp only [mem_nodes, h.mem_iff]

theorem mem_nodes_singleton {e : Position × Text} (he : e ∈ nodes virtualNodes instances) :
    ∃ inst ∈ instances, e ∈ nodes virtualNodes [inst] := by
  obtain ⟨inst, hi, hh, i, hlt, rfl⟩ := mem_nodes.mp he
  exact ⟨inst, hi, mem_nodes.mpr ⟨inst, List.mem_singleton_self inst, hh, i, hlt, rfl⟩⟩

theorem snd_of_mem_singleton {inst : ServiceInstance} {e : Position × Text}
    (he : e ∈ nodes virtualNodes [inst]) : e.2 = inst.getId := by
  obtain ⟨x, hx, -, i, -, rfl⟩ := mem_nodes.mp he
  rw [List.mem_singleton.mp hx]

/-- An instance at the end of the list owns every position that one of its nodes has. -/
theorem chosen_last {inst : ServiceInstance} (hi : inst ∈ instances) {e : Position × Text}
    (he : e ∈ nodes virtualNodes [inst])
    (hfirst : ∀ f ∈ nodes virtualNodes instances, NoLater (position key) e.1 f.1) :
    ∃ shuffled, shuffled.Perm instances ∧ chosen virtualNodes shuffled key = .ok e.2 := by
  have hperm : (instances.erase inst ++ [inst]).Perm instances :=
    (List.perm_append_singleton _ _).trans (List.perm_cons_erase hi).symm
  have hsplit : nodes virtualNodes (instances.erase inst ++ [inst]) =
      nodes virtualNodes (instances.erase inst) ++ nodes virtualNodes [inst] := by
    simp [nodes]
  have hmem : e ∈ nodes virtualNodes (instances.erase inst ++ [inst]) := by
    rw [hsplit]
    exact List.mem_append_right _ he
  refine ⟨_, hperm, ?_⟩
  cases hg : (ring virtualNodes (instances.erase inst ++ [inst])).around (position key) with
  | none =>
    rw [around_assign_eq_none.mp hg] at hmem
    cases hmem
  | some g =>
    obtain ⟨hg', hfirst'⟩ := around_assign hg
    have hkey : e.1 = g.1 :=
      (hfirst g ((mem_nodes_perm hperm).mp hg')).antisymm (hfirst' e hmem)
    have hentry := (around_noLater hg).1
    rw [ring, hsplit] at hentry
    have howner := snd_of_mem_singleton (mem_later_of_assign hentry he hkey)
    rw [chosen_of_around hg, howner, snd_of_mem_singleton he]

/-- Every order of the instances gives a key the same id exactly when the position
that follows the key belongs to one of them. -/
theorem order_independent_iff (hv : 1 ≤ virtualNodes) (instances : List ServiceInstance)
    (key : Text) :
    (∀ shuffled, shuffled.Perm instances →
      chosen virtualNodes shuffled key = chosen virtualNodes instances key) ↔
      Unshared virtualNodes instances key := by
  constructor
  · intro h e he hfirst e' he' hkey
    have hfirst' : ∀ f ∈ nodes virtualNodes instances, NoLater (position key) e'.1 f.1 := by
      rw [hkey]
      exact hfirst
    obtain ⟨inst, hi, hinst⟩ := mem_nodes_singleton he
    obtain ⟨inst', hi', hinst'⟩ := mem_nodes_singleton he'
    obtain ⟨shuffled, hperm, hchosen⟩ := chosen_last hi hinst hfirst
    obtain ⟨shuffled', hperm', hchosen'⟩ := chosen_last hi' hinst' hfirst'
    rw [h shuffled hperm] at hchosen
    rw [h shuffled' hperm', hchosen] at hchosen'
    exact (Except.ok.inj hchosen').symm
  · intro h shuffled hperm
    by_cases hhealthy : ∃ inst ∈ instances, inst.isHealthy
    · obtain ⟨inst, hi, hh⟩ := hhealthy
      obtain ⟨e, he⟩ := around_of_healthy hv hi hh (position key)
      obtain ⟨e', he'⟩ := around_of_healthy hv (hperm.mem_iff.mpr hi) hh (position key)
      obtain ⟨hmem, hfirst⟩ := around_assign he
      obtain ⟨hmem', hfirst'⟩ := around_assign he'
      have hkey : e'.1 = e.1 := (hfirst' e ((mem_nodes_perm hperm).mpr hmem)).antisymm
        (hfirst e' ((mem_nodes_perm hperm).mp hmem'))
      rw [chosen_of_around he, chosen_of_around he',
        h e hmem hfirst e' ((mem_nodes_perm hperm).mp hmem') hkey]
    · have hall : ∀ inst ∈ instances, inst.isHealthy = false := by simpa using hhealthy
      have hall' : ∀ inst ∈ shuffled, inst.isHealthy = false :=
        fun inst hi => hall inst (hperm.mem_iff.mp hi)
      rw [chosen_of_unhealthy hall, chosen_of_unhealthy hall', hperm.isEmpty_eq]

end Orders

section Collision

/-- Two host names with one hash. -/
def liquidInstance : ServiceInstance := ⟨text "calc", text "liquid", 8001, 1, true, 0, []⟩

def costarringInstance : ServiceInstance :=
  ⟨text "calc", text "costarring", 8001, 1, true, 0, []⟩

theorem order_independent_iff_collision :
    (∀ shuffled, shuffled.Perm [liquidInstance, costarringInstance] →
      chosen 100 shuffled (text "user-1") =
        chosen 100 [liquidInstance, costarringInstance] (text "user-1")) ↔
      Unshared 100 [liquidInstance, costarringInstance] (text "user-1") :=
  order_independent_iff (by decide) _ _

/-- Their virtual nodes coincide, and the order of the list decides. -/
theorem order_decides_owner :
    liquidInstance.getId ≠ costarringInstance.getId ∧
    [costarringInstance, liquidInstance].Perm [liquidInstance, costarringInstance] ∧
    chosen 3 [liquidInstance, costarringInstance] (text "user-1") =
      .ok costarringInstance.getId ∧
    chosen 3 [costarringInstance, liquidInstance] (text "user-1") =
      .ok liquidInstance.getId := by
  refine ⟨by decide, List.Perm.swap _ _ _, by decide +kernel, by decide +kernel⟩

end Collision

end Mprpc.DiscoveryOrder
