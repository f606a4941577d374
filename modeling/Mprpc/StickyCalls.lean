import Mprpc.CallTurns
import Mprpc.KeyStability

namespace Mprpc.StickyCalls

open Transport RpcClientStub CallTruth StubSteps InstanceTarget CallTurns LoadBalancerFactory
open Library Library.Transition Library.OrderedMap ConsistentHashLoadBalancer HashRing KeyStability

variable {ν : Type} {virtualNodes : Int} {key : Text} {healthy : HealthyInstances}
  {lb : ConsistentHashLoadBalancer} {instances : List ServiceInstance} {e : Position × Text}
  {found : Except Text (List ServiceInstance)} {founds : List (Except Text (List ServiceInstance))}

section Choice

def actualKey (key : Text) : Text := if key.isEmpty then text "default" else key

/-- The ring that a selection searches. -/
def searched (healthy : HealthyInstances) (lb : ConsistentHashLoadBalancer) :
    OrderedMap Position Text :=
  if lb.hashRing.isEmpty then ring lb.virtualNodes healthy.instances else lb.hashRing

theorem position_actualKey (key : Text) : position (actualKey key) = position key := by
  have hdefault : (text "default").isEmpty = false := by decide
  unfold position actualKey
  by_cases h : key.isEmpty
  · simp [h, hdefault]
  · simp [h]

/-- All that a selection does, by the node that it finds. -/
theorem chooseByKey_found (h : (searched healthy lb).around (position key) = some e) :
    chooseByKey key healthy lb = match healthy.withId e.2 with
      | some inst =>
        (inst, { lb with hashRing := searched healthy lb, lastKey := actualKey key })
      | none => (healthy.first,
          { lb with
            hashRing := ring lb.virtualNodes healthy.instances, lastKey := actualKey key }) := by
  have hstart : (if lb.hashRing.isEmpty then lb.rebuildHashRing healthy.instances else lb) =
      { lb with hashRing := searched healthy lb } := by
    unfold searched
    rw [rebuildHashRing_eq]
    split <;> rfl
  have hfound : (searched healthy lb).around
      (ConsistentHashLoadBalancer.hash (if key.isEmpty then text "default" else key)).toFin =
        some e := h
  unfold chooseByKey
  rw [hstart]
  dsimp only
  rw [hfound]
  dsimp only
  cases healthy.withId e.2 with
  | some inst => rfl
  | none =>
    dsimp only
    rw [rebuildHashRing_eq]
    rfl

end Choice

/-- Something healthy has been discovered. -/
def Offers (found : Except Text (List ServiceInstance)) : Prop :=
  ∃ instances, found = .ok instances ∧ ∃ inst ∈ instances, inst.isHealthy

/-- A healthy instance of this id has been discovered. -/
def OffersId (id : Text) (found : Except Text (List ServiceInstance)) : Prop :=
  ∃ instances, found = .ok instances ∧ ∃ inst ∈ instances, inst.isHealthy ∧ inst.getId = id

section Selection

theorem selectFound_none (h : ¬Offers found) (lb : ConsistentHashLoadBalancer) :
    (selectFound consistentHash found lb).2 = lb := by
  cases found with
  | error e => rfl
  | ok instances =>
    have hall : ∀ inst ∈ instances, inst.isHealthy = false := by
      intro inst hi
      by_contra hh
      exact h ⟨instances, rfl, inst, hi, by simpa using hh⟩
    obtain ⟨e, hsel⟩ := selectHealthy_error (chooseByKey lb.lastKey) hall lb
    simp only [selectFound]
    split
    · rfl
    · change (lb.selectByKey instances lb.lastKey).2 = lb
      rw [selectByKey, hsel]

theorem selectFound_some (hok : healthyInstances instances = .ok healthy)
    (hne : instances ≠ []) (lb : ConsistentHashLoadBalancer) :
    selectFound consistentHash (.ok instances) lb =
      (some (chooseByKey lb.lastKey healthy lb).1, (chooseByKey lb.lastKey healthy lb).2) := by
  simp only [selectFound, List.isEmpty_eq_false_iff.mpr hne, Bool.false_eq_true, if_false]
  have hselect : consistentHash.select instances lb =
      (.ok (chooseByKey lb.lastKey healthy lb).1, (chooseByKey lb.lastKey healthy lb).2) := by
    change selectHealthy (chooseByKey lb.lastKey) instances lb = _
    simp only [selectHealthy, hok]
  rw [hselect]
  rfl

end Selection

section Keeping

/-- What a stub keeps of its balancer: it asks for one key, and the ring is that of a list with
something healthy that has been discovered, if there was one. -/
structure Placed (virtualNodes : Int) (founds : List (Except Text (List ServiceInstance)))
    (lb : ConsistentHashLoadBalancer) : Prop where
  nodes : lb.virtualNodes = virtualNodes
  key : position lb.lastKey = position []
  ring : (lb.hashRing.isEmpty ∧ ∀ found ∈ founds, ¬Offers found) ∨
    ∃ instances, Except.ok instances ∈ founds ∧ (∃ inst ∈ instances, inst.isHealthy) ∧
      lb.hashRing = ring virtualNodes instances

theorem ring_around (hv : 1 ≤ virtualNodes) (h : ∃ inst ∈ instances, inst.isHealthy)
    (k : Position) :
    ∃ e, (ring virtualNodes instances).around k = some e := by
  obtain ⟨inst, hi, hh⟩ := h
  obtain ⟨healthy, -, hl⟩ := healthyInstances_ok hi hh
  rw [← ring_healthy hl]
  exact ring_some hv healthy k

theorem isEmpty_of_around {m : OrderedMap Position Text} {k : Position} (h : m.around k = some e) :
    m.isEmpty = false := by
  by_contra hempty
  have hnone : m.around k = none := by
    rw [around_eq_none]
    simpa [OrderedMap.isEmpty] using hempty
  rw [hnone] at h
  cases h

theorem selectFound_placed (hv : 1 ≤ virtualNodes) (h : Placed virtualNodes founds lb)
    (found : Except Text (List ServiceInstance)) :
    Placed virtualNodes (founds ++ [found]) (selectFound consistentHash found lb).2 := by
  by_cases hoffers : Offers found
  · obtain ⟨instances, rfl, inst, hi, hh⟩ := hoffers
    obtain ⟨healthy, hok, hl⟩ := healthyInstances_ok hi hh
    have hsome : ∃ inst ∈ instances, inst.isHealthy := ⟨inst, hi, hh⟩
    have hmem : Except.ok instances ∈ founds ++ [.ok instances] := by simp
    have hring : ring lb.virtualNodes healthy.instances = ring virtualNodes instances := by
      rw [h.nodes, ring_healthy hl]
    have hsearched : ∃ list, Except.ok list ∈ founds ++ [.ok instances] ∧
        (∃ inst ∈ list, inst.isHealthy) ∧ searched healthy lb = ring virtualNodes list := by
      obtain ⟨hempty, -⟩ | ⟨list, hlist, hany, hkept⟩ := h.ring
      · exact ⟨instances, hmem, hsome, (if_pos hempty).trans hring⟩
      · obtain ⟨e, he⟩ := ring_around hv hany (position [])
        have hfull := isEmpty_of_around he
        rw [← hkept] at hfull
        refine ⟨list, List.mem_append_left _ hlist, hany, ?_⟩
        rw [searched, hfull, if_neg Bool.false_ne_true, hkept]
    obtain ⟨list, hlist, hany, hkept⟩ := hsearched
    obtain ⟨e, he⟩ := ring_around hv hany (position lb.lastKey)
    rw [← hkept] at he
    rw [selectFound_some hok (List.ne_nil_of_mem hi), chooseByKey_found he]
    cases healthy.withId e.2 with
    | some inst =>
      exact ⟨h.nodes, (position_actualKey _).trans h.key, .inr ⟨list, hlist, hany, hkept⟩⟩
    | none =>
      exact ⟨h.nodes, (position_actualKey _).trans h.key, .inr ⟨instances, hmem, hsome, hring⟩⟩
  · rw [selectFound_none hoffers]
    refine ⟨h.nodes, h.key, h.ring.imp ?_ ?_⟩
    · rintro ⟨hempty, hnone⟩
      refine ⟨hempty, ?_⟩
      intro found' hfound'
      obtain hfound' | hfound' := List.mem_append.mp hfound'
      · exact hnone found' hfound'
      · rwa [List.mem_singleton.mp hfound']
    · rintro ⟨list, hlist, hany, hkept⟩
      exact ⟨list, List.mem_append_left _ hlist, hany, hkept⟩

theorem selections_placed (hv : 1 ≤ virtualNodes) (h : Placed virtualNodes founds lb)
    (more : List (Except Text (List ServiceInstance))) :
    Placed virtualNodes (founds ++ more) (selections consistentHash more lb).2 := by
  induction more generalizing founds lb with
  | nil => rwa [List.append_nil]
  | cons found more ih =>
    rw [← List.singleton_append, ← List.append_assoc]
    exact ih (selectFound_placed hv h found)

/-- The key of a stub stands at an instance of this id. -/
structure Sticks (id : Text) (lb : ConsistentHashLoadBalancer) : Prop where
  key : position lb.lastKey = position []
  node : ∃ p, lb.hashRing.around (position []) = some (p, id)

theorem selectFound_sticks {id : Text} (h : Sticks id lb) (hoffers : OffersId id found) :
    Sticks id (selectFound consistentHash found lb).2 ∧
      ∃ inst, (selectFound consistentHash found lb).1 = some inst ∧ inst.getId = id := by
  obtain ⟨instances, rfl, inst, hi, hh, hid⟩ := hoffers
  obtain ⟨healthy, hok, hl⟩ := healthyInstances_ok hi hh
  obtain ⟨p, hnode⟩ := h.node
  have hsearched : searched healthy lb = lb.hashRing := if_neg (by simp [isEmpty_of_around hnode])
  have hfound : (searched healthy lb).around (position lb.lastKey) = some (p, id) := by
    rw [hsearched, h.key, hnode]
  have hmem : inst ∈ healthy.instances := by
    rw [hl]
    exact List.mem_filter.mpr ⟨hi, hh⟩
  obtain ⟨x, hx⟩ := withId_of_mem hmem
  rw [hid] at hx
  rw [selectFound_some hok (List.ne_nil_of_mem hi), chooseByKey_found hfound, hx]
  refine ⟨⟨(position_actualKey _).trans h.key, p, ?_⟩, x, rfl, (withId_some hx).2⟩
  exact (congrArg (·.around (position [])) hsearched).trans hnode

theorem selections_stick {id : Text} (h : Sticks id lb)
    (hall : ∀ found ∈ founds, OffersId id found) :
    ∀ selected ∈ (selections consistentHash founds lb).1,
      ∃ inst, selected = some inst ∧ inst.getId = id := by
  induction founds generalizing lb with
  | nil => exact fun _ h => by cases h
  | cons found founds ih =>
    obtain ⟨hnext, hfirst⟩ := selectFound_sticks h (hall found List.mem_cons_self)
    rw [selections_cons]
    intro selected hselected
    obtain rfl | hselected := List.mem_cons.mp hselected
    · exact hfirst
    · exact ih hnext (fun found' h => hall found' (List.mem_cons_of_mem _ h)) selected hselected

/-- Once something has been selected, the key stands where a new balancer puts it on one of the
lists so far. -/
theorem Placed.sticks (hv : 1 ≤ virtualNodes) (h : Placed virtualNodes founds lb)
    (hsome : ∃ found ∈ founds, Offers found) : ∃ home : ServiceInstance, Sticks home.getId lb ∧
      ∃ instances, Except.ok instances ∈ founds ∧
        pick (fresh virtualNodes) instances (text "default") = .ok home := by
  obtain ⟨-, hnone⟩ | ⟨instances, hmem, hany, hkept⟩ := h.ring
  · obtain ⟨found, hfound, hoffers⟩ := hsome
    exact absurd hoffers (hnone found hfound)
  · obtain ⟨inst, hi, hh⟩ := hany
    obtain ⟨healthy, hok, hl⟩ := healthyInstances_ok hi hh
    obtain ⟨⟨p, id⟩, he⟩ := ring_some hv healthy (position [])
    obtain ⟨home, hhome, hanswer⟩ := withId_of_around he
    have hid : home.getId = id := (withId_some hhome).2
    rw [ring_healthy hl] at he
    have hdefault : position (text "default") = position [] := position_actualKey []
    refine ⟨home, ⟨h.key, p, ?_⟩, instances, hmem, ?_⟩
    · rw [hkept, he, hid]
    · rw [pick_eq hok, hdefault]
      exact congrArg Except.ok hanswer

end Keeping

/-- A stub with this balancer has one instance at any time: as long as that is discovered, every
call goes to it, however many others there are. -/
theorem calls_stick (hv : 1 ≤ virtualNodes) {serviceName : Text} {dials : List (Option TcpClient)}
    {before : List (Call ν)} {s : Calling ConsistentHashLoadBalancer}
    (hbefore : run (step consistentHash)
      (start serviceName consistentHash (fresh virtualNodes) dials) before = some s)
    (hsome : ∃ call ∈ before, Offers call.found) : ∃ home : ServiceInstance,
    (∃ call ∈ before, ∃ instances, call.found = .ok instances ∧
      pick (fresh virtualNodes) instances (text "default") = .ok home) ∧
    ∀ (calls : List (Call ν)) (t : Calling ConsistentHashLoadBalancer),
      run (step consistentHash) s calls = some t →
      (∀ call ∈ calls, OffersId home.getId call.found) → ∃ turns, t.turns = s.turns ++ turns ∧
        turns.length = calls.length ∧
        ∀ turn ∈ turns, turn.Aimed ∧
          ∃ inst, turn.selected = some inst ∧ inst.getId = home.getId := by
  have hname : consistentHash.getName ≠ text "LeastConnection" := by decide
  obtain ⟨hd, htarget⟩ := start_sound serviceName consistentHash (fresh virtualNodes) dials
  obtain ⟨-, -, ⟨hd', htarget'⟩, -, hdirectory, -⟩ := run_turns hname hd htarget hbefore
  have hnew : Placed virtualNodes [] (fresh virtualNodes) :=
    ⟨rfl, rfl, .inl ⟨rfl, fun _ h => by cases h⟩⟩
  have hplaced := selections_placed hv hnew (before.map (·.found))
  rw [List.nil_append] at hplaced
  have hoffers : ∃ found ∈ before.map (·.found), Offers found := by
    obtain ⟨call, hcall, hoffer⟩ := hsome
    exact ⟨_, List.mem_map_of_mem hcall, hoffer⟩
  obtain ⟨home, hsticks, instances, hmem, hpick⟩ := hplaced.sticks hv hoffers
  obtain ⟨first, hfirst, hfound⟩ := List.mem_map.mp hmem
  refine ⟨home, ⟨first, hfirst, instances, hfound, hpick⟩, ?_⟩
  intro calls t hrun hall
  obtain ⟨turns, hturns, -, hselected, -, haimed⟩ := run_turns hname hd' htarget' hrun
  rw [hdirectory] at hselected
  have hoffered : ∀ found ∈ calls.map (·.found), OffersId home.getId found := by
    intro found hfound
    obtain ⟨call, hcall, rfl⟩ := List.mem_map.mp hfound
    exact hall call hcall
  refine ⟨turns, hturns, ?_, ?_⟩
  · have hlength := congrArg List.length hselected
    rwa [List.length_map, selections_length, List.length_map] at hlength
  · intro turn hturn
    have hmem' := List.mem_map_of_mem (f := fun turn => turn.selected) hturn
    rw [hselected] at hmem'
    exact ⟨haimed turn hturn, selections_stick hsticks hoffered turn.selected hmem'⟩

/-- The server answers one request and is gone. -/
def onceClient : TcpClient :=
  { refusedClient with sends := [.sent 15, .error (.other (text "Broken pipe"))] }

/-- A second instance is discovered in front of the first, and gets no call even when the
connection is gone. -/
theorem calls_stick_joined : ∃ s t turns,
    run (step consistentHash) (start (text "A") consistentHash (fresh 2)
      [some onceClient]) [callWith (.ok [instanceAt 1 true])] = some s ∧
    run (step consistentHash) s
      (List.replicate 2 (callWith (.ok [instanceAt 3 true, instanceAt 1 true]))) = some t ∧
    t.turns.map (·.selected) = List.replicate 3 (some (instanceAt 1 true)) ∧
    t.turns = s.turns ++ turns ∧ turns.length = 2 ∧
    ∀ turn ∈ turns, turn.Aimed ∧
      ∃ inst, turn.selected = some inst ∧ inst.getId = (instanceAt 1 true).getId := by
  have hview : ∃ s, run (step consistentHash) (start (text "A") consistentHash (fresh 2)
      [some onceClient]) [callWith (.ok [instanceAt 1 true])] = some s ∧
      (run (step consistentHash) s
        (List.replicate 2 (callWith (.ok [instanceAt 3 true, instanceAt 1 true])))).map
          (fun t => t.turns.map (·.selected)) =
            some (List.replicate 3 (some (instanceAt 1 true))) :=
    ⟨_, rfl, by decide +kernel⟩
  obtain ⟨s, hbefore, hview⟩ := hview
  obtain ⟨t, hrun, hselected⟩ := Option.map_eq_some_iff.mp hview
  have hoffers : Offers (callWith (.ok [instanceAt 1 true])).found :=
    ⟨_, rfl, _, List.mem_singleton_self _, rfl⟩
  obtain ⟨home, ⟨call, hcall, instances, hfound, hpick⟩, hstick⟩ :=
    calls_stick (by decide) hbefore ⟨_, List.mem_singleton_self _, hoffers⟩
  rw [List.mem_singleton.mp hcall] at hfound
  obtain rfl : [instanceAt 1 true] = instances := Except.ok.inj hfound
  have hhome : pick (fresh 2) [instanceAt 1 true] (text "default") = .ok (instanceAt 1 true) := by
    decide +kernel
  obtain rfl : instanceAt 1 true = home := Except.ok.inj (hhome.symm.trans hpick)
  obtain ⟨turns, hturns, hlength, hall⟩ := hstick _ t hrun (by
    intro call hcall
    rw [List.eq_of_mem_replicate hcall]
    exact ⟨_, rfl, instanceAt 1 true, by simp, rfl, rfl⟩)
  exact ⟨s, t, turns, hbefore, hrun, hselected, hturns, hlength, hall⟩

end Mprpc.StickyCalls
