import Mathlib.Order.OrderDual
import Mprpc.BalancedCounts
import Mprpc.Library.BestOf

namespace Mprpc.LeastConnections

open Transport Library LeastConnectionLoadBalancer BalancedCounts

inductive Call
  | select (instances : List ServiceInstance)
  | updateStats (instanceId : Text) (connectionStart : Bool)
deriving DecidableEq, Repr

def perform (lb : LeastConnectionLoadBalancer) : Call → LeastConnectionLoadBalancer
  | .select instances => (lb.select instances).2
  | .updateStats instanceId connectionStart => lb.updateStats instanceId connectionStart

/-- A new balancer after some calls. -/
def after (calls : List Call) : LeastConnectionLoadBalancer := calls.foldl perform {}

/-- The starts of an id less its ends. -/
def outstanding (calls : List Call) (id : Text) : Int :=
  calls.count (.updateStats id true) - calls.count (.updateStats id false)

/-- No connection ends that has not started, and an `int` holds those that are open. -/
def Paired (calls : List Call) : Prop :=
  ∀ before, before <+: calls → ∀ id, 0 ≤ outstanding before id ∧ outstanding before id < intMax

section Counts

variable {calls : List Call} {call : Call}

theorem Paired.append_left {more : List Call} (h : Paired (calls ++ more)) : Paired calls :=
  fun before hbefore => h before (hbefore.trans (List.prefix_append calls more))

theorem after_snoc (calls : List Call) (call : Call) :
    after (calls ++ [call]) = perform (after calls) call := List.foldl_concat ..

theorem outstanding_select (calls : List Call) (instances : List ServiceInstance) (id : Text) :
    outstanding (calls ++ [.select instances]) id = outstanding calls id := by
  simp [outstanding, List.count_append]

theorem outstanding_start (calls : List Call) (instanceId id : Text) :
    outstanding (calls ++ [.updateStats instanceId true]) id =
      if id = instanceId then outstanding calls id + 1 else outstanding calls id := by
  by_cases h : id = instanceId
  · subst h
    simp [outstanding, List.count_append]
    omega
  · simp [outstanding, List.count_append, h, Ne.symm h]

theorem outstanding_end (calls : List Call) (instanceId id : Text) :
    outstanding (calls ++ [.updateStats instanceId false]) id =
      if id = instanceId then outstanding calls id - 1 else outstanding calls id := by
  by_cases h : id = instanceId
  · subst h
    simp [outstanding, List.count_append]
    omega
  · simp [outstanding, List.count_append, h, Ne.symm h]

theorem value_after (h : Paired calls) (id : Text) :
    (after calls).connectionCounts.value id = outstanding calls id := by
  induction calls using List.reverseRecOn generalizing id with
  | nil => rfl
  | append_singleton calls call ih =>
    have hvalue := ih h.append_left
    have hbounds := h _ (List.prefix_refl _)
    rw [after_snoc]
    cases call with
    | select instances =>
      rw [outstanding_select, ← hvalue]
      exact select_value id
    | updateStats instanceId connectionStart =>
      specialize hbounds instanceId
      have hold := h.append_left calls (List.prefix_refl _) instanceId
      cases connectionStart with
      | true =>
        rw [outstanding_start, if_pos rfl, intMax] at hbounds
        rw [outstanding_start, perform, start_value, hvalue, hvalue,
          wrapInt_of_range (by omega) (by omega)]
        split
        · rename_i heq
          rw [heq]
        · rfl
      | false =>
        rw [outstanding_end, if_pos rfl] at hbounds
        have hpos : 0 < (after calls).connectionCounts.value instanceId := by
          rw [hvalue]
          omega
        rw [intMax] at hold
        rw [outstanding_end, perform, end_value _ _ hpos, hvalue, hvalue,
          wrapInt_of_range (by omega) (by omega)]
        split
        · rename_i heq
          rw [heq]
        · rfl

end Counts

section Selection

variable {healthy : HealthyInstances} {lb : LeastConnectionLoadBalancer}

/-- The scan keeps what the search for the best keeps, the smaller number being the
better one. -/
theorem scan_eq (count : ServiceInstance → Int) (instances : List ServiceInstance)
    (least : Int) (selected : ServiceInstance) :
    (instances.foldl (fun (best : Int × ServiceInstance) inst =>
      if count inst < best.1 then (count inst, inst) else best) (least, selected)).2 =
      (bestOf (fun inst => OrderDual.toDual (count inst)) (OrderDual.toDual least)
        instances).getD selected := by
  induction instances generalizing least selected with
  | nil => rfl
  | cons inst instances ih =>
    rw [List.foldl_cons, bestOf]
    by_cases h : count inst < least
    · rw [if_pos h, ih, if_pos (OrderDual.toDual_lt_toDual.mpr h)]
      rfl
    · rw [if_neg h, ih, if_neg (mt OrderDual.toDual_lt_toDual.mp h)]

/-- With every count below the largest `int` the scan takes the first of the least. -/
theorem choose_first_minimal
    (h : ∀ inst ∈ healthy.instances, lb.connectionCounts.value inst.getId < intMax) :
    ∃ before rest, healthy.instances = before ++ (choose healthy lb).1 :: rest ∧
      (∀ x ∈ before, lb.connectionCounts.value (choose healthy lb).1.getId <
        lb.connectionCounts.value x.getId) ∧
      ∀ x ∈ rest, lb.connectionCounts.value (choose healthy lb).1.getId ≤
        lb.connectionCounts.value x.getId := by
  have hchoose : (choose healthy lb).1 = (bestOf
      (fun inst => OrderDual.toDual (lb.connectionCounts.value inst.getId))
      (OrderDual.toDual intMax) healthy.instances).getD healthy.first := by
    rw [← scan_eq]
    simp only [choose, Numbers.value_ensureAll]
  cases hbest : bestOf (fun inst => OrderDual.toDual (lb.connectionCounts.value inst.getId))
      (OrderDual.toDual intMax) healthy.instances with
  | none =>
    have hlt := h _ healthy.first_mem
    exact absurd hlt (not_lt.mpr (bestOf_eq_none.mp hbest _ healthy.first_mem))
  | some inst =>
    rw [hchoose, hbest]
    obtain ⟨-, before, rest, hsplit, hbefore, hrest⟩ := bestOf_eq_some hbest
    exact ⟨before, rest, hsplit, hbefore, hrest⟩

end Selection

/-- A selection takes the first of the healthy instances with the fewest open
connections, and leaves the counts at what is open. -/
theorem select_first_minimal {calls : List Call} (h : Paired calls)
    {instances : List ServiceInstance} (hh : ∃ inst ∈ instances, inst.isHealthy) :
    (∃ inst before rest, ((after calls).select instances).1 = .ok inst ∧
      instances.filter (·.isHealthy) = before ++ inst :: rest ∧
      (∀ x ∈ before, outstanding calls inst.getId < outstanding calls x.getId) ∧
      ∀ x ∈ rest, outstanding calls inst.getId ≤ outstanding calls x.getId) ∧
    ∀ id, ((after calls).select instances).2.connectionCounts.value id = outstanding calls id := by
  have hvalue := value_after h
  constructor
  · obtain ⟨x, hx, hhealthy⟩ := hh
    obtain ⟨healthy, hinstances, hselect⟩ := selectHealthy_ok choose hx hhealthy (after calls)
    have hbounded : ∀ inst ∈ healthy.instances,
        (after calls).connectionCounts.value inst.getId < intMax := by
      intro inst _
      rw [hvalue]
      exact (h calls (List.prefix_refl calls) inst.getId).2
    obtain ⟨before, rest, hsplit, hbefore, hrest⟩ := choose_first_minimal hbounded
    simp only [hvalue] at hbefore hrest
    refine ⟨_, before, rest, ?_, hinstances ▸ hsplit, hbefore, hrest⟩
    rw [select, hselect]
  · intro id
    rw [select_value, hvalue]

def busyInstance : ServiceInstance := ⟨text "calc", text "10.0.0.1", 8001, 1, true, 0, []⟩

def idleInstance : ServiceInstance := ⟨text "calc", text "10.0.0.2", 8001, 1, true, 0, []⟩

def busyCalls : List Call := [.select [busyInstance], .updateStats busyInstance.getId true]

theorem busyCalls_paired : Paired busyCalls := by
  intro before hbefore id
  have hends : before.count (.updateStats id false) = 0 := by
    apply List.count_eq_zero.mpr
    intro hmem
    simpa [busyCalls] using hbefore.subset hmem
  have hstarts : before.count (.updateStats id true) ≤ 2 :=
    List.count_le_length.trans hbefore.length_le
  rw [outstanding, hends, intMax]
  omega

theorem select_first_minimal_busy :
    (∃ inst before rest, ((after busyCalls).select [busyInstance, idleInstance]).1 = .ok inst ∧
      [busyInstance, idleInstance].filter (·.isHealthy) = before ++ inst :: rest ∧
      (∀ x ∈ before, outstanding busyCalls inst.getId < outstanding busyCalls x.getId) ∧
      ∀ x ∈ rest, outstanding busyCalls inst.getId ≤ outstanding busyCalls x.getId) ∧
    ∀ id, ((after busyCalls).select [busyInstance, idleInstance]).2.connectionCounts.value id =
      outstanding busyCalls id :=
  select_first_minimal busyCalls_paired ⟨busyInstance, List.mem_cons_self, rfl⟩

end Mprpc.LeastConnections
