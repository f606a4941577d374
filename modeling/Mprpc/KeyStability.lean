import Mprpc.HashRing

namespace Mprpc.KeyStability

open Transport Library OrderedMap ConsistentHashLoadBalancer HashRing

/-- `selectByKey` on a balancer that remembers nothing. -/
def pick (lb : ConsistentHashLoadBalancer) (instances : List ServiceInstance) (key : Text) :
    Except Text ServiceInstance := (lb.reset.selectByKey instances key).1

def without (id : Text) (instances : List ServiceInstance) : List ServiceInstance :=
  instances.filter (·.getId ≠ id)

variable {lb : ConsistentHashLoadBalancer} {instances : List ServiceInstance} {key : Text}
variable {healthy : HealthyInstances}

theorem pick_eq (h : healthyInstances instances = .ok healthy) :
    pick lb instances key = .ok (answer healthy
      ((ring lb.virtualNodes healthy.instances).around (position key))) := by
  have hfst := chooseByKey_fst key healthy lb.reset
  simp only [pick, selectByKey, selectHealthy, h]
  rw [hfst]
  rfl

theorem withId_filter {rest : HealthyInstances} {q : Text → Bool}
    (hrest : rest.instances = healthy.instances.filter fun inst => q inst.getId) {id : Text}
    {inst : ServiceInstance} (h : healthy.withId id = some inst) (hq : q id) :
    rest.withId id = some inst := by
  rw [HealthyInstances.withId, hrest]
  have hid := (withId_some h).2
  exact find?_filter_of_find? h (by rwa [hid])

theorem first_filter {rest : HealthyInstances} {q : Text → Bool}
    (hrest : rest.instances = healthy.instances.filter fun inst => q inst.getId)
    (hq : q healthy.first.getId) : rest.first = healthy.first := by
  obtain ⟨l, hne, hh⟩ := healthy
  obtain ⟨l', hne', hh'⟩ := rest
  cases l with
  | nil => exact absurd rfl hne
  | cons x xs =>
    have hx : q x.getId := hq
    simp only [List.filter_cons, hx, if_true] at hrest
    subst hrest
    rfl

/-- The answer only changes when it was an instance that has left. -/
theorem answer_filter {rest : HealthyInstances} {q : Text → Bool} (virtualNodes : Int)
    (k : Position)
    (hrest : rest.instances = healthy.instances.filter fun inst => q inst.getId)
    (hq : q (answer healthy ((ring virtualNodes healthy.instances).around k)).getId) :
    answer rest ((ring virtualNodes rest.instances).around k) =
      answer healthy ((ring virtualNodes healthy.instances).around k) := by
  have hring : ring virtualNodes rest.instances =
      OrderedMap.empty.assign ((nodes virtualNodes healthy.instances).filter fun e => q e.2) := by
    rw [ring, hrest, nodes_filter]
  cases h : (ring virtualNodes healthy.instances).around k with
  | none =>
    have hnone : (ring virtualNodes rest.instances).around k = none := by
      rw [hring, around_assign_eq_none, around_assign_eq_none.mp h]
      rfl
    rw [h] at hq
    rw [hnone]
    exact first_filter hrest hq
  | some e =>
    obtain ⟨inst, hinst, hans⟩ := withId_of_around h
    rw [hans, (withId_some hinst).2] at hq
    rw [h] at hans
    have hkeep : (ring virtualNodes rest.instances).around k = some e := by
      rw [hring]
      exact around_assign_filter h hq
    rw [hans, hkeep]
    change (rest.withId e.2).getD rest.first = inst
    rw [withId_filter hrest hinst hq]
    rfl

/-- Taking an instance out moves the keys that were on it and no others; read the
other way, putting one in moves keys to it only. -/
theorem moves_only_removed (lb : ConsistentHashLoadBalancer) (instances : List ServiceInstance)
    (id key : Text) (hrest : ∃ inst ∈ without id instances, inst.isHealthy) :
    ∃ inst, pick lb instances key = .ok inst ∧
      (inst.getId ≠ id → pick lb (without id instances) key = .ok inst) ∧
      (pick lb instances key = pick lb (without id instances) key ∨ inst.getId = id) := by
  obtain ⟨x, hx, hh⟩ := hrest
  obtain ⟨rest, hrest, hr⟩ := healthyInstances_ok hx hh
  obtain ⟨healthy, hall, hl⟩ := healthyInstances_ok (List.mem_filter.mp hx).1 hh
  have hfilter :
      rest.instances = healthy.instances.filter fun inst => decide (inst.getId ≠ id) := by
    rw [hr, hl, without, List.filter_filter, List.filter_filter]
    congr 1
    funext inst
    exact Bool.and_comm _ _
  have hkeep : (answer healthy ((ring lb.virtualNodes healthy.instances).around
      (position key))).getId ≠ id →
      pick lb (without id instances) key = pick lb instances key := by
    intro hne
    rw [pick_eq hrest, pick_eq hall,
      answer_filter (q := fun i => decide (i ≠ id)) lb.virtualNodes _ hfilter (by simpa using hne)]
  refine ⟨_, pick_eq hall, ?_, ?_⟩
  · intro hne
    rw [hkeep hne, pick_eq hall]
  · by_cases hid : (answer healthy ((ring lb.virtualNodes healthy.instances).around
        (position key))).getId = id
    · exact .inr hid
    · exact .inl (hkeep hid).symm

def fresh (virtualNodes : Int) : ConsistentHashLoadBalancer := { virtualNodes := virtualNodes }

/-- The balancer after some calls of `selectByKey`. -/
def after (calls : List (List ServiceInstance × Text)) (lb : ConsistentHashLoadBalancer) :
    ConsistentHashLoadBalancer :=
  calls.foldl (fun lb call => (lb.selectByKey call.1 call.2).2) lb

/-- The ring kept from an earlier call serves a list and a key: there is none, or
the node that follows the key is the one that follows it on the list's own ring,
or its owner has gone and the first healthy instance is the successor. -/
def Serves (lb : ConsistentHashLoadBalancer) (instances : List ServiceInstance) (key : Text) :
    Prop :=
  lb.hashRing.isEmpty ∨
  lb.hashRing.around (position key) = (ring lb.virtualNodes instances).around (position key) ∨
  ∃ stale e, lb.hashRing.around (position key) = some stale ∧
    (∀ inst ∈ instances, inst.isHealthy → inst.getId ≠ stale.2) ∧
    (ring lb.virtualNodes instances).around (position key) = some e ∧
    (instances.find? (·.isHealthy)).map (·.getId) = some e.2

section History

variable {virtualNodes : Int}

theorem selectByKey_ring (lb : ConsistentHashLoadBalancer) (instances : List ServiceInstance)
    (key : Text) : (lb.selectByKey instances key).2.virtualNodes = lb.virtualNodes ∧
      ((lb.selectByKey instances key).2.hashRing = lb.hashRing ∨
        ∃ l, (lb.selectByKey instances key).2.hashRing = ring lb.virtualNodes l) := by
  by_cases h : ∃ inst ∈ instances, inst.isHealthy
  · obtain ⟨inst, hi, hh⟩ := h
    obtain ⟨healthy, -, hsel⟩ := selectHealthy_ok (chooseByKey key) hi hh lb
    obtain ⟨hv, hr⟩ := chooseByKey_ring key healthy lb
    rw [selectByKey, hsel]
    exact ⟨hv, hr.imp id fun h => ⟨_, h⟩⟩
  · have hall : ∀ inst ∈ instances, inst.isHealthy = false := by simpa using h
    obtain ⟨e, hsel⟩ := selectHealthy_error (chooseByKey key) hall lb
    rw [selectByKey, hsel]
    exact ⟨rfl, .inl rfl⟩

theorem after_ring (virtualNodes : Int) (calls : List (List ServiceInstance × Text)) :
    (after calls (fresh virtualNodes)).virtualNodes = virtualNodes ∧
      ∃ l, (after calls (fresh virtualNodes)).hashRing = ring virtualNodes l := by
  have hrun : ∀ lb : ConsistentHashLoadBalancer, lb.virtualNodes = virtualNodes →
      (∃ l, lb.hashRing = ring virtualNodes l) → (after calls lb).virtualNodes = virtualNodes ∧
        ∃ l, (after calls lb).hashRing = ring virtualNodes l := by
    induction calls with
    | nil => exact fun lb hv hl => ⟨hv, hl⟩
    | cons call calls ih =>
      intro lb hv hl
      obtain ⟨hv', hr⟩ := selectByKey_ring lb call.1 call.2
      rw [hv] at hv' hr
      apply ih _ hv'
      obtain hr | hr := hr
      · rw [hr]
        exact hl
      · exact hr
  exact hrun (fresh virtualNodes) rfl ⟨[], rfl⟩

/-- If two rings give a key to the same instance, they do so by the same node. -/
theorem node_unique {l l' : List ServiceInstance} {k : Position} {e e' : Position × Text}
    (h : (ring virtualNodes l).around k = some e) (h' : (ring virtualNodes l').around k = some e')
    (hid : e.2 = e'.2) : e = e' := by
  obtain ⟨he, hfirst⟩ := around_assign h
  obtain ⟨he', hfirst'⟩ := around_assign h'
  obtain ⟨inst, hi, hh, i, hlt, rfl⟩ := mem_nodes.mp he
  obtain ⟨inst', hi', hh', i', hlt', rfl⟩ := mem_nodes.mp he'
  change inst.getId = inst'.getId at hid
  have hle := hfirst _ (mem_nodes.mpr ⟨inst, hi, hh, i', hlt', rfl⟩)
  have hle' := hfirst' _ (mem_nodes.mpr ⟨inst', hi', hh', i, hlt, rfl⟩)
  simp only [hid] at hle hle' ⊢
  rw [hle.antisymm hle']

theorem ring_some (hv : 1 ≤ virtualNodes) (healthy : HealthyInstances) (k : Position) :
    ∃ e, (ring virtualNodes healthy.instances).around k = some e := by
  cases h : (ring virtualNodes healthy.instances).around k with
  | some e => exact ⟨e, rfl⟩
  | none =>
    have hmem : _ ∈ nodes virtualNodes healthy.instances := mem_nodes.mpr
      ⟨healthy.first, healthy.first_mem, healthy.healthy _ healthy.first_mem, 0, by omega, rfl⟩
    rw [around_assign_eq_none.mp h] at hmem
    cases hmem

theorem selectByKey_eq (h : healthyInstances instances = .ok healthy)
    (lb : ConsistentHashLoadBalancer) : (lb.selectByKey instances key).1 = .ok (answer healthy
      ((if lb.hashRing.isEmpty then ring lb.virtualNodes healthy.instances
        else lb.hashRing).around (position key))) := by
  rw [← chooseByKey_fst]
  simp [selectByKey, selectHealthy, h]

theorem ring_healthy (h : healthy.instances = instances.filter (·.isHealthy)) :
    ring virtualNodes healthy.instances = ring virtualNodes instances := by
  rw [ring, ring, nodes, h, List.filter_filter]
  simp [nodes]

theorem first_eq_find (h : healthy.instances = instances.filter (·.isHealthy)) :
    instances.find? (·.isHealthy) = some healthy.first := by
  rw [← List.head?_filter, ← h]
  exact List.head?_eq_some_head healthy.nonempty

/-- The answer of the ring kept is the one of a new balancer exactly when the
ring serves the list and the key. -/
theorem answer_eq_iff (hv : 1 ≤ virtualNodes) {k : Position} {l : List ServiceInstance}
    {e : Position × Text} (h : (ring virtualNodes l).around k = some e) :
    answer healthy (some e) = answer healthy ((ring virtualNodes healthy.instances).around k) ↔
      some e = (ring virtualNodes healthy.instances).around k ∨
      (∀ inst ∈ healthy.instances, inst.getId ≠ e.2) ∧
        ∃ e', (ring virtualNodes healthy.instances).around k = some e' ∧
          healthy.first.getId = e'.2 := by
  obtain ⟨e', he'⟩ := ring_some hv healthy k
  obtain ⟨inst', hinst', hans'⟩ := withId_of_around he'
  obtain ⟨hmem', hid'⟩ := withId_some hinst'
  rw [hans', he']
  cases hw : healthy.withId e.2 with
  | some inst =>
    obtain ⟨hmem, hid⟩ := withId_some hw
    have hans : answer healthy (some e) = inst := by
      change (healthy.withId e.2).getD healthy.first = inst
      rw [hw]
      rfl
    rw [hans]
    constructor
    · rintro rfl
      rw [node_unique h he' (hid.symm.trans hid')]
      exact .inl rfl
    · rintro (heq | ⟨hgone, -⟩)
      · cases heq
        exact Option.some.inj (hw.symm.trans hinst')
      · exact absurd hid (hgone inst hmem)
  | none =>
    have hgone : ∀ inst ∈ healthy.instances, inst.getId ≠ e.2 := by
      rw [HealthyInstances.withId, List.find?_eq_none] at hw
      simpa using hw
    have hans : answer healthy (some e) = healthy.first := by
      change (healthy.withId e.2).getD healthy.first = healthy.first
      rw [hw]
      rfl
    rw [hans]
    constructor
    · rintro hfirst
      exact .inr ⟨hgone, e', rfl, by rw [hfirst, hid']⟩
    · rintro (heq | ⟨-, e'', heq, hfirst⟩)
      · cases heq
        rw [hw] at hinst'
        cases hinst'
      · cases heq
        rw [← hfirst, withId_first] at hinst'
        exact Option.some.inj hinst'

/-- What a balancer answers after earlier calls is what a new one answers exactly
when the ring it has kept serves the list and the key. -/
theorem history_independent_iff (hv : 1 ≤ virtualNodes)
    (calls : List (List ServiceInstance × Text)) (instances : List ServiceInstance) (key : Text)
    (hh : ∃ inst ∈ instances, inst.isHealthy) :
    ((after calls (fresh virtualNodes)).selectByKey instances key).1 =
        ((fresh virtualNodes).selectByKey instances key).1 ↔
      Serves (after calls (fresh virtualNodes)) instances key := by
  obtain ⟨x, hx, hhx⟩ := hh
  obtain ⟨healthy, hok, hl⟩ := healthyInstances_ok hx hhx
  obtain ⟨hvn, l, hring⟩ := after_ring virtualNodes calls
  generalize after calls (fresh virtualNodes) = lb at hvn hring ⊢
  have hnew : ((fresh virtualNodes).selectByKey instances key).1 =
      .ok (answer healthy ((ring virtualNodes healthy.instances).around (position key))) :=
    selectByKey_eq hok _
  rw [hnew, selectByKey_eq hok, hvn, Serves, hvn, Except.ok.injEq, ← ring_healthy hl,
    first_eq_find hl]
  have hgone : ∀ id, (∀ inst ∈ healthy.instances, inst.getId ≠ id) ↔
      ∀ inst ∈ instances, inst.isHealthy → inst.getId ≠ id := by
    intro id
    simp [hl]
  by_cases he : lb.hashRing.isEmpty
  · simp [he]
  · cases ha : lb.hashRing.around (position key) with
    | none =>
      rw [around_eq_none] at ha
      simp [OrderedMap.isEmpty, ha] at he
    | some e =>
      rw [if_neg he, ha, answer_eq_iff hv (hring ▸ ha)]
      constructor
      · rintro (h | ⟨h, e', he', hfirst⟩)
        · exact .inr (.inl h)
        · exact .inr (.inr ⟨e, e', rfl, (hgone e.2).mp h, he', congrArg some hfirst⟩)
      · rintro (h | h | ⟨stale, e', hs, h, he', hfirst⟩)
        · exact absurd h he
        · exact .inl h
        · cases hs
          exact .inr ⟨(hgone e.2).mpr h, e', he', Option.some.inj hfirst⟩

end History

section Examples

def oldInstance : ServiceInstance := ⟨text "calc", text "10.0.0.1", 8001, 1, true, 0, []⟩

def newInstance : ServiceInstance := ⟨text "calc", text "10.0.0.2", 8001, 1, true, 0, []⟩

theorem moves_only_removed_one :
    ∃ inst, pick (fresh 3) [oldInstance, newInstance] (text "user-1") = .ok inst ∧
      (inst.getId ≠ oldInstance.getId →
        pick (fresh 3) (without oldInstance.getId [oldInstance, newInstance]) (text "user-1") =
          .ok inst) ∧
      (pick (fresh 3) [oldInstance, newInstance] (text "user-1") =
        pick (fresh 3) (without oldInstance.getId [oldInstance, newInstance]) (text "user-1") ∨
          inst.getId = oldInstance.getId) :=
  moves_only_removed (fresh 3) [oldInstance, newInstance] oldInstance.getId (text "user-1")
    ⟨newInstance, by decide, rfl⟩

theorem history_independent_iff_repeated :
    ((after [([oldInstance], text "user-1")] (fresh 1)).selectByKey [oldInstance]
        (text "user-1")).1 = ((fresh 1).selectByKey [oldInstance] (text "user-1")).1 ↔
      Serves (after [([oldInstance], text "user-1")] (fresh 1)) [oldInstance] (text "user-1") :=
  history_independent_iff (by decide) [([oldInstance], text "user-1")] [oldInstance]
    (text "user-1") ⟨oldInstance, by decide, rfl⟩

/-- An instance that joins after the first call gets no key. -/
theorem joined_instance_ignored :
    ((after [([oldInstance], text "user-1")] (fresh 1)).selectByKey [oldInstance, newInstance]
        (text "user-1")).1 ≠
      ((fresh 1).selectByKey [oldInstance, newInstance] (text "user-1")).1 := by
  decide

end Examples

end Mprpc.KeyStability
