import Mprpc.LoadBalancers

namespace Mprpc.BalancerContract

open Transport

/-- What every caller of a balancer relies on, in every state it can be in. -/
structure Honors {σ : Type} (select : List ServiceInstance → σ → Except Text ServiceInstance × σ) :
    Prop where
  throws_iff : ∀ instances s, (∃ e, (select instances s).1 = .error e) ↔
    ¬∃ inst ∈ instances, inst.isHealthy
  unchanged : ∀ instances s e, (select instances s).1 = .error e → (select instances s).2 = s
  returns : ∀ instances s inst, (select instances s).1 = .ok inst →
    inst ∈ instances ∧ inst.isHealthy

/-- It is enough that the choice is made among the healthy instances. -/
theorem honors_selectHealthy {σ : Type} {choose : HealthyInstances → σ → ServiceInstance × σ}
    (hchoose : ∀ healthy s, (choose healthy s).1 ∈ healthy.instances) :
    Honors (selectHealthy choose) := by
  have hcases : ∀ instances s,
      ((¬∃ inst ∈ instances, inst.isHealthy) ∧
        ∃ e, selectHealthy choose instances s = (.error e, s)) ∨
      (∃ inst ∈ instances, inst.isHealthy) ∧ ∃ inst s',
        selectHealthy choose instances s = (.ok inst, s') ∧ inst ∈ instances ∧ inst.isHealthy := by
    intro instances s
    by_cases h : ∃ inst ∈ instances, inst.isHealthy
    · obtain ⟨inst, hi, hh⟩ := h
      obtain ⟨healthy, hl, hsel⟩ := selectHealthy_ok choose hi hh s
      have hmem := hchoose healthy s
      rw [hl] at hmem
      exact .inr ⟨⟨inst, hi, hh⟩, _, _, hsel, List.mem_filter.mp hmem⟩
    · have hall : ∀ inst ∈ instances, inst.isHealthy = false := by simpa using h
      exact .inl ⟨h, selectHealthy_error choose hall s⟩
  constructor
  · intro instances s
    obtain ⟨hn, e, he⟩ | ⟨hy, inst, s', hok, -⟩ := hcases instances s
    · exact ⟨fun _ => hn, fun _ => ⟨e, by rw [he]⟩⟩
    · refine ⟨?_, fun hn => absurd hy hn⟩
      rintro ⟨e, he⟩
      rw [hok] at he
      cases he
  · intro instances s e h
    obtain ⟨-, e', he⟩ | ⟨-, inst, s', hok, -⟩ := hcases instances s
    · rw [he]
    · rw [hok] at h
      cases h
  · intro instances s inst h
    obtain ⟨-, e', he⟩ | ⟨-, inst', s', hok, hmem⟩ := hcases instances s
    · rw [he] at h
      cases h
    · rw [hok] at h
      cases h
      exact hmem

theorem withId_getD_mem (healthy : HealthyInstances) (id : Text) :
    (healthy.withId id).getD healthy.first ∈ healthy.instances := by
  cases h : healthy.withId id with
  | none => exact healthy.first_mem
  | some inst => exact List.mem_of_find?_eq_some h

theorem foldl_best_mem (counts : Numbers) (instances : List ServiceInstance)
    (best : Int × ServiceInstance) :
    (instances.foldl (fun (best : Int × ServiceInstance) inst =>
      if counts.value inst.getId < best.1 then (counts.value inst.getId, inst) else best) best).2 ∈
      best.2 :: instances := by
  induction instances generalizing best with
  | nil => simp
  | cons inst instances ih =>
    rw [List.foldl_cons]
    by_cases hlt : counts.value inst.getId < best.1
    · rw [if_pos hlt]
      exact List.mem_cons_of_mem _ (ih _)
    · rw [if_neg hlt]
      obtain h | h := List.mem_cons.mp (ih best)
      · exact List.mem_cons.mpr (.inl h)
      · exact List.mem_cons_of_mem _ (List.mem_cons_of_mem _ h)

theorem chooseByKey_mem (key : Text) (healthy : HealthyInstances)
    (lb : ConsistentHashLoadBalancer) :
    (ConsistentHashLoadBalancer.chooseByKey key healthy lb).1 ∈ healthy.instances := by
  unfold ConsistentHashLoadBalancer.chooseByKey
  dsimp only
  split
  · exact healthy.first_mem
  · split
    · next inst h => exact List.mem_of_find?_eq_some h
    · exact healthy.first_mem

theorem roundRobin_honors : Honors RoundRobinLoadBalancer.select := by
  apply honors_selectHealthy
  intro healthy lb
  exact List.get_mem _ _

theorem weightedRoundRobin_honors : Honors WeightedRoundRobinLoadBalancer.select := by
  apply honors_selectHealthy
  intro healthy lb
  exact withId_getD_mem healthy _

theorem leastConnection_honors : Honors LeastConnectionLoadBalancer.select := by
  apply honors_selectHealthy
  intro healthy lb
  have hbest : (LeastConnectionLoadBalancer.choose healthy lb).1 = healthy.first ∨
      (LeastConnectionLoadBalancer.choose healthy lb).1 ∈ healthy.instances :=
    List.mem_cons.mp (foldl_best_mem _ healthy.instances (LeastConnectionLoadBalancer.intMax, _))
  obtain h | h := hbest
  · rw [h]
    exact healthy.first_mem
  · exact h

theorem selectByKey_honors (key : Text) :
    Honors fun instances lb => ConsistentHashLoadBalancer.selectByKey instances key lb :=
  honors_selectHealthy (chooseByKey_mem key)

/-- Every balancer keeps to the contract, from any state. -/
theorem balancers_honor :
    Honors RoundRobinLoadBalancer.select ∧ Honors WeightedRoundRobinLoadBalancer.select ∧
    Honors LeastConnectionLoadBalancer.select ∧ Honors ConsistentHashLoadBalancer.select ∧
    ∀ key, Honors fun instances lb => ConsistentHashLoadBalancer.selectByKey instances key lb := by
  refine ⟨roundRobin_honors, weightedRoundRobin_honors, leastConnection_honors, ?_,
    selectByKey_honors⟩
  -- `select` is `selectByKey` with the key the state remembers
  constructor
  · intro instances lb
    exact (selectByKey_honors lb.lastKey).throws_iff instances lb
  · intro instances lb e h
    exact (selectByKey_honors lb.lastKey).unchanged instances lb e h
  · intro instances lb inst h
    exact (selectByKey_honors lb.lastKey).returns instances lb inst h

end Mprpc.BalancerContract
