import Mprpc.Library.Rotation
import Mprpc.Library.Transition
import Mprpc.LoadBalancers

namespace Mprpc.RoundRobinTurns

open Transport Library Library.Rotation Library.Transition RoundRobinLoadBalancer

/-- A call of `select` from its `fetch_add` on: its own list of healthy instances, the
value it has fetched, and what it has returned. -/
structure Call where
  healthy : HealthyInstances
  index : UInt64
  result : Option ServiceInstance

/-- The calls are in the order in which they fetched. -/
structure Shared where
  balancer : RoundRobinLoadBalancer
  calls : List Call

inductive Act
  | fetchAdd
  | finish (k : Nat)
deriving DecidableEq, Repr

def fetchAdd (lb : RoundRobinLoadBalancer) : UInt64 × RoundRobinLoadBalancer :=
  (lb.currentIndex, { lb with currentIndex := lb.currentIndex + 1 })

/-- What `select` does with the value. -/
def pick (healthy : HealthyInstances) (index : UInt64) : ServiceInstance :=
  have h : index.toNat % healthy.instances.length < healthy.instances.length :=
    Nat.mod_lt _ (List.length_pos_iff.mpr healthy.nonempty)
  healthy.instances.get ⟨index.toNat % healthy.instances.length, h⟩

/-- Any caller may begin a call at any time, and any call that has fetched may return; a
call that throws comes to no `fetch_add`. -/
def step (instances : List ServiceInstance) (s : Shared) : Act → Option Shared
  | .fetchAdd =>
    match healthyInstances instances with
    | .error _ => some s
    | .ok healthy =>
      let (index, balancer) := fetchAdd s.balancer
      some ⟨balancer, s.calls ++ [⟨healthy, index, none⟩]⟩
  | .finish k =>
    match s.calls[k]? with
    | some ⟨healthy, index, none⟩ =>
      some { s with calls := s.calls.set k ⟨healthy, index, some (pick healthy index)⟩ }
    | _ => none

/-- The place among the healthy instances that a call goes to. -/
def Call.position (call : Call) : Nat := call.index.toNat % call.healthy.instances.length

/-- The calls have fetched one value after the other, and what they return is what
stands at their places. -/
structure Ordered (healthy : List ServiceInstance) (start : UInt64) (s : Shared) : Prop where
  counter : s.balancer.currentIndex = start + UInt64.ofNat s.calls.length
  indices : s.calls.map (·.index) = (List.range s.calls.length).map (start + UInt64.ofNat ·)
  lists : ∀ call ∈ s.calls, call.healthy.instances = healthy
  results : ∀ call ∈ s.calls, ∀ inst, call.result = some inst → healthy[call.position]? = some inst

theorem pick_eq (healthy : HealthyInstances) (index : UInt64) :
    healthy.instances[index.toNat % healthy.instances.length]? = some (pick healthy index) :=
  List.getElem?_eq_getElem _

section Steps

variable {instances : List ServiceInstance} {start : UInt64} {s t : Shared}

theorem start_ordered (lb : RoundRobinLoadBalancer) :
    Ordered (instances.filter (·.isHealthy)) lb.currentIndex ⟨lb, []⟩ :=
  ⟨(UInt64.add_zero _).symm, rfl, (fun _ h => by cases h), (fun _ h => by cases h)⟩

theorem fetchAdd_ordered {healthy : HealthyInstances} (h : Ordered healthy.instances start s) :
    Ordered healthy.instances start
      ⟨(fetchAdd s.balancer).2, s.calls ++ [⟨healthy, (fetchAdd s.balancer).1, none⟩]⟩ := by
  have hindex : (fetchAdd s.balancer).1 = start + UInt64.ofNat s.calls.length := h.counter
  refine ⟨?_, ?_, ?_, ?_⟩
  · change s.balancer.currentIndex + 1 = _
    rw [h.counter, List.length_append, List.length_singleton, UInt64.ofNat_add, UInt64.add_assoc]
    rfl
  · rw [List.map_append, h.indices, List.length_append, List.length_singleton, List.range_succ,
      List.map_append, List.map_singleton, List.map_singleton, hindex]
  · intro call hcall
    obtain hcall | hcall := List.mem_append.mp hcall
    · exact h.lists call hcall
    · rw [List.mem_singleton.mp hcall]
  · intro call hcall inst hresult
    obtain hcall | hcall := List.mem_append.mp hcall
    · exact h.results call hcall inst hresult
    · rw [List.mem_singleton.mp hcall] at hresult
      cases hresult

theorem finish_ordered {healthy : List ServiceInstance} (h : Ordered healthy start s) {k : Nat}
    {own : HealthyInstances} {index : UInt64} (hk : s.calls[k]? = some ⟨own, index, none⟩) :
    Ordered healthy start
      { s with calls := s.calls.set k ⟨own, index, some (pick own index)⟩ } := by
  have hown : own.instances = healthy := h.lists _ (List.mem_of_getElem? hk)
  refine ⟨?_, ?_, ?_, ?_⟩
  · rw [h.counter, List.length_set]
  · rw [List.length_set, List.map_set, ← h.indices]
    apply List.ext_getElem?
    intro i
    by_cases hi : k = i
    · subst hi
      have hlt := (List.getElem?_eq_some_iff.mp hk).1
      rw [List.getElem?_set_self (by rwa [List.length_map]), List.getElem?_map, hk]
      rfl
    · rw [List.getElem?_set_ne hi]
  · intro call hcall
    obtain hcall | rfl := List.mem_or_eq_of_mem_set hcall
    · exact h.lists call hcall
    · exact hown
  · intro call hcall inst hresult
    obtain hcall | rfl := List.mem_or_eq_of_mem_set hcall
    · exact h.results call hcall inst hresult
    · cases hresult
      rw [← hown]
      exact pick_eq own index

theorem step_ordered {healthy : HealthyInstances} (hok : healthyInstances instances = .ok healthy)
    (s : Shared) (act : Act) (t : Shared) (h : Ordered healthy.instances start s)
    (hstep : step instances s act = some t) : Ordered healthy.instances start t := by
  cases act with
  | fetchAdd =>
    simp only [step, hok] at hstep
    cases hstep
    exact fetchAdd_ordered h
  | finish k =>
    simp only [step] at hstep
    split at hstep
    · rename_i own index hk
      cases hstep
      exact finish_ordered h hk
    · cases hstep

end Steps

section Windows

variable {healthy : List ServiceInstance} {start : UInt64} {s : Shared}

theorem Ordered.index_eq (h : Ordered healthy start s) {k : Nat} {call : Call}
    (hk : s.calls[k]? = some call) : call.index = start + UInt64.ofNat k := by
  have hlt := (List.getElem?_eq_some_iff.mp hk).1
  have hsame : (s.calls.map (·.index))[k]? =
      ((List.range s.calls.length).map (start + UInt64.ofNat ·))[k]? := by rw [h.indices]
  rw [List.getElem?_map, hk, List.getElem?_map, List.getElem?_range hlt] at hsame
  exact Option.some.inj hsame

/-- The places of a window are those of consecutive numbers while the counter does not
wrap around in it. -/
theorem Ordered.positions_eq (h : Ordered healthy start s) {before window after : List Call}
    (hsplit : before ++ window ++ after = s.calls) {first : Call}
    (hfirst : window.head? = some first)
    (hwrap : first.index.toNat + window.length ≤ 2 ^ 64) :
    window.map Call.position = turns healthy.length first.index.toNat window.length := by
  have hget : ∀ i (hi : i < window.length), s.calls[before.length + i]? = some window[i] := by
    intro i hi
    rw [← hsplit, List.append_assoc, List.getElem?_append_right (Nat.le_add_right _ _),
      Nat.add_sub_cancel_left, List.getElem?_append_left hi, List.getElem?_eq_getElem hi]
  have hstart : first.index = start + UInt64.ofNat before.length := by
    obtain ⟨rest, rfl⟩ := List.head?_eq_some_iff.mp hfirst
    exact h.index_eq (hget 0 (Nat.zero_lt_succ _))
  apply List.ext_getElem
  · rw [List.length_map, turns_length]
  · intro i hi _
    rw [List.length_map] at hi
    have hindex : window[i].index = first.index + UInt64.ofNat i := by
      rw [h.index_eq (hget i hi), hstart, UInt64.ofNat_add, UInt64.add_assoc]
    have hvalue : window[i].index.toNat = first.index.toNat + i := by
      rw [hindex, UInt64.toNat_add, UInt64.toNat_ofNat', Nat.add_mod_mod]
      exact Nat.mod_eq_of_lt (by omega)
    have hlist : window[i].healthy.instances = healthy :=
      h.lists _ (List.mem_of_getElem? (hget i hi))
    simp only [List.getElem_map, turns, List.getElem_range', Call.position, hvalue, hlist,
      Nat.one_mul]

end Windows

/-- The calls of one caller, each after the one before. -/
def selects (instances : List ServiceInstance) :
    Nat → RoundRobinLoadBalancer →
      List (Except Text ServiceInstance) × RoundRobinLoadBalancer
  | 0, lb => ([], lb)
  | t + 1, lb =>
    let (results, lb) := selects instances t lb
    let (result, lb) := select instances lb
    (results ++ [result], lb)

theorem selects_succ (instances : List ServiceInstance) (t : Nat) (lb : RoundRobinLoadBalancer) :
    selects instances (t + 1) lb =
      ((selects instances t lb).1 ++ [(select instances (selects instances t lb).2).1],
        (select instances (selects instances t lb).2).2) := rfl

def alone (t : Nat) : List Act := (List.range t).flatMap fun k => [.fetchAdd, .finish k]

theorem alone_run {instances : List ServiceInstance} {healthy : HealthyInstances}
    (hok : healthyInstances instances = .ok healthy) (lb : RoundRobinLoadBalancer) (t : Nat) :
    ∃ s, run (step instances) ⟨lb, []⟩ (alone t) = some s ∧ s.calls.length = t ∧
      s.balancer = (selects instances t lb).2 ∧
      s.calls.map (·.result) = (selects instances t lb).1.map Except.toOption ∧
      ∀ call ∈ s.calls, call.result ≠ none := by
  induction t with
  | zero => exact ⟨⟨lb, []⟩, rfl, rfl, rfl, rfl, fun _ h => by cases h⟩
  | succ t ih =>
    obtain ⟨s, hrun, hlength, hbalancer, hresults, hreturned⟩ := ih
    let index := s.balancer.currentIndex
    let begun : Shared := ⟨(fetchAdd s.balancer).2, s.calls ++ [⟨healthy, index, none⟩]⟩
    let ended : Shared := ⟨(fetchAdd s.balancer).2,
      s.calls ++ [⟨healthy, index, some (pick healthy index)⟩]⟩
    have hbegin : step instances s .fetchAdd = some begun := by
      simp only [step, hok]
      rfl
    have hlast : begun.calls[t]? = some ⟨healthy, index, none⟩ := by
      rw [← hlength]
      exact List.getElem?_concat_length
    have hend : step instances begun (.finish t) = some ended := by
      simp only [step, hlast]
      congr 2
      rw [← hlength]
      simp [begun]
    have hselect : select instances s.balancer = (.ok (pick healthy index),
        (fetchAdd s.balancer).2) := by
      simp only [select, selectHealthy, hok]
      rfl
    have halone : alone (t + 1) = alone t ++ [.fetchAdd, .finish t] := by
      rw [alone, List.range_succ, List.flatMap_append, ← alone]
      rfl
    have hboth : run (step instances) ⟨lb, []⟩ (alone (t + 1)) = some ended := by
      rw [halone, run_append_some]
      exact ⟨s, hrun, run_cons_some.mpr ⟨begun, hbegin, run_cons_some.mpr ⟨ended, hend, rfl⟩⟩⟩
    refine ⟨ended, hboth, ?_, ?_, ?_, ?_⟩
    · rw [List.length_append, hlength, List.length_singleton]
    · rw [selects_succ, ← hbalancer, hselect]
    · rw [selects_succ, ← hbalancer, hselect, List.map_append, List.map_append, hresults]
      rfl
    · intro call hcall
      obtain hcall | hcall := List.mem_append.mp hcall
      · exact hreturned call hcall
      · rw [List.mem_singleton.mp hcall]
        exact Option.some_ne_none _

section Fairness

variable {instances : List ServiceInstance} {healthy : HealthyInstances}

theorem run_ordered (hok : healthyInstances instances = .ok healthy)
    (hlist : healthy.instances = instances.filter (·.isHealthy)) {lb : RoundRobinLoadBalancer}
    {acts : List Act} {s : Shared} (hrun : run (step instances) ⟨lb, []⟩ acts = some s) :
    Ordered healthy.instances lb.currentIndex s := by
  have hstart : Ordered healthy.instances lb.currentIndex ⟨lb, []⟩ := by
    rw [hlist]
    exact start_ordered lb
  exact run_invariant_of_forall (step_ordered hok) hstart hrun

/-- The calls in a part of the order in which they fetched, whoever made them. -/
theorem window_even (hok : healthyInstances instances = .ok healthy)
    (hlist : healthy.instances = instances.filter (·.isHealthy)) {lb : RoundRobinLoadBalancer}
    {acts : List Act} {s : Shared} (hrun : run (step instances) ⟨lb, []⟩ acts = some s)
    {window : List Call} (hwindow : window <:+: s.calls)
    (hwrap : ∀ first ∈ window.head?, first.index.toNat + window.length ≤ 2 ^ 64) :
    Even healthy.instances.length (window.map Call.position) ∧
      ∀ call ∈ window, ∀ inst, call.result = some inst →
        healthy.instances[call.position]? = some inst := by
  have hordered := run_ordered hok hlist hrun
  have hpos : 0 < healthy.instances.length := List.length_pos_iff.mpr healthy.nonempty
  constructor
  · cases hfirst : window.head? with
    | none =>
      rw [List.head?_eq_none_iff.mp hfirst]
      exact turns_even hpos 0 0
    | some first =>
      obtain ⟨before, after, hsplit⟩ := hwindow
      rw [hordered.positions_eq hsplit hfirst (hwrap first hfirst)]
      exact turns_even hpos _ _
  · intro call hcall
    exact hordered.results call (hwindow.subset hcall)

/-- The calls of one caller are the whole order of their run. -/
theorem selects_even (hok : healthyInstances instances = .ok healthy)
    (hlist : healthy.instances = instances.filter (·.isHealthy)) (lb : RoundRobinLoadBalancer)
    {t : Nat} (hwrap : lb.currentIndex.toNat + t ≤ 2 ^ 64) :
    ∃ positions, positions.length = t ∧ Even healthy.instances.length positions ∧
      (selects instances t lb).1.map Except.toOption =
        positions.map (healthy.instances[·]?) := by
  obtain ⟨s, hrun, hlength, _, hresults, hreturned⟩ := alone_run hok lb t
  have hfirst : ∀ first ∈ s.calls.head?, first.index.toNat + s.calls.length ≤ 2 ^ 64 := by
    intro first hmem
    have hzero : s.calls[0]? = some first := List.head?_eq_getElem?.symm.trans hmem
    have hindex := (run_ordered hok hlist hrun).index_eq hzero
    rw [hindex, hlength]
    exact (congrArg (·.toNat + t ≤ 2 ^ 64) (UInt64.add_zero _)).mpr hwrap
  obtain ⟨heven, hplaces⟩ := window_even hok hlist hrun (List.infix_refl s.calls) hfirst
  refine ⟨s.calls.map Call.position, ?_, heven, ?_⟩
  · rw [List.length_map, hlength]
  · rw [← hresults, List.map_map]
    apply List.map_congr_left
    intro call hcall
    obtain ⟨inst, hinst⟩ := Option.ne_none_iff_exists'.mp (hreturned call hcall)
    rw [hinst]
    exact (hplaces call hcall inst hinst).symm

theorem selections_even (h : ∃ inst ∈ instances, inst.isHealthy) (lb : RoundRobinLoadBalancer) :
    (∀ t, lb.currentIndex.toNat + t ≤ 2 ^ 64 → ∃ positions, positions.length = t ∧
      Even (instances.filter (·.isHealthy)).length positions ∧
      (selects instances t lb).1.map Except.toOption =
        positions.map ((instances.filter (·.isHealthy))[·]?)) ∧
    ∀ acts s, run (step instances) ⟨lb, []⟩ acts = some s → ∀ window, window <:+: s.calls →
      (∀ first ∈ window.head?, first.index.toNat + window.length ≤ 2 ^ 64) →
      Even (instances.filter (·.isHealthy)).length (window.map Call.position) ∧
        ∀ call ∈ window, ∀ inst, call.result = some inst →
          (instances.filter (·.isHealthy))[call.position]? = some inst := by
  obtain ⟨inst, hmem, hhealthy⟩ := h
  obtain ⟨healthy, hok, hlist⟩ := healthyInstances_ok hmem hhealthy
  rw [← hlist]
  constructor
  · intro t hwrap
    exact selects_even hok hlist lb hwrap
  · intro acts s hrun window hwindow hwrap
    exact window_even hok hlist hrun hwindow hwrap

/-- Two callers whose calls come in between each other, on three instances of which the
second is not healthy: the second to fetch is the first to return. -/
theorem selections_even_crossed :
    let inst (port : UInt16) (isHealthy : Bool) : ServiceInstance :=
      ⟨text "echo", text "h", port, 1, isHealthy, 0, []⟩
    let instances := [inst 1 true, inst 2 false, inst 3 true]
    let acts : List Act := [.fetchAdd, .fetchAdd, .finish 1, .fetchAdd, .finish 0, .finish 2]
    ∃ s, run (step instances) ⟨⟨5⟩, []⟩ acts = some s ∧
      s.calls.map (·.result) = [some (inst 3 true), some (inst 1 true), some (inst 3 true)] ∧
      Even 2 (s.calls.map Call.position) := by
  intro inst instances acts
  have hsome : ∃ i ∈ instances, i.isHealthy := ⟨inst 1 true, List.mem_cons_self, rfl⟩
  refine ⟨_, rfl, by decide +kernel, ?_⟩
  exact ((selections_even hsome ⟨5⟩).2 acts _ rfl _ (List.infix_refl _) (by decide +kernel)).1

end Fairness

end Mprpc.RoundRobinTurns
