import Mprpc.CallTurns
import Mprpc.LeastConnections

namespace Mprpc.BrokenCalls

open Transport RpcClientStub CallTruth StubSteps InstanceTarget CallTurns LoadBalancerFactory
open LeastConnectionLoadBalancer Library.Transition
open BalancedCounts (select_value start_value end_value)

variable {ν : Type} {call : Call ν} {turns : List Turn} {turn : Turn}
  {lb lb' : LeastConnectionLoadBalancer}

/-- The call had a connection to the instance and has thrown on it. -/
def brokenAt (id : Text) (turn : Turn) : Bool :=
  turn.ending = .broken ∧ turn.selected.map (·.getId) = some id

def broken (turns : List Turn) (id : Text) : Nat := turns.countP (brokenAt id)

/-- The balancer counts the calls that have thrown. -/
def Counts (turns : List Turn) (lb : LeastConnectionLoadBalancer) : Prop :=
  ∀ id, lb.connectionCounts.value id = broken turns id

theorem broken_le (turns : List Turn) (id : Text) : broken turns id ≤ turns.length :=
  List.countP_le_length

theorem broken_snoc (turns : List Turn) (turn : Turn) (id : Text) :
    broken (turns ++ [turn]) id = broken turns id + if brokenAt id turn then 1 else 0 := by
  rw [broken, List.countP_append, List.countP_singleton, ← broken]

theorem selectFound_value (found : Except Text (List ServiceInstance))
    (lb : LeastConnectionLoadBalancer) (id : Text) :
    (selectFound leastConnection found lb).2.connectionCounts.value id =
      lb.connectionCounts.value id := by
  unfold selectFound
  split
  · rfl
  · split
    · rfl
    · exact select_value id

/-- Every count has room for one more. -/
def Bounded (lb : LeastConnectionLoadBalancer) : Prop :=
  ∀ id, 0 ≤ lb.connectionCounts.value id ∧ lb.connectionCounts.value id < intMax

theorem Bounded.wrap (h : Bounded lb) (id : Text) :
    wrapInt (lb.connectionCounts.value id + 1) = lb.connectionCounts.value id + 1 ∧
      wrapInt (lb.connectionCounts.value id) = lb.connectionCounts.value id := by
  obtain ⟨hlow, hhigh⟩ := h id
  rw [intMax] at hhigh
  constructor
  · exact wrapInt_of_range (by omega) (by omega)
  · exact wrapInt_of_range (by omega) (by omega)

theorem started_value (h : Bounded lb) (instanceId id : Text) :
    (lb.updateStats instanceId true).connectionCounts.value id =
      lb.connectionCounts.value id + if instanceId = id then 1 else 0 := by
  rw [start_value, (h.wrap instanceId).1]
  by_cases hid : id = instanceId
  · rw [if_pos hid, if_pos hid.symm, hid]
  · rw [if_neg hid, if_neg (Ne.symm hid), add_zero]

theorem ended_value (h : Bounded lb) (instanceId id : Text) :
    ((lb.updateStats instanceId true).updateStats instanceId false).connectionCounts.value id =
      lb.connectionCounts.value id := by
  have hlow := (h instanceId).1
  have hone := started_value h instanceId instanceId
  rw [if_pos rfl] at hone
  rw [end_value _ _ (by omega), hone, add_sub_cancel_right, (h.wrap instanceId).2]
  by_cases hid : id = instanceId
  · rw [if_pos hid, hid]
  · rw [if_neg hid, started_value h, if_neg (Ne.symm hid), add_zero]

theorem settled_value (h : Bounded lb) (turn : Turn) (id : Text) :
    (settled leastConnection turn lb).connectionCounts.value id =
      lb.connectionCounts.value id + if brokenAt id turn then 1 else 0 := by
  obtain ⟨selected, peer, ending⟩ := turn
  cases ending with
  | unready =>
    rw [settled_unready]
    simp [brokenAt]
  | broken =>
    cases selected with
    | none =>
      change lb.connectionCounts.value id = _
      simp [brokenAt]
    | some inst =>
      change (lb.updateStats inst.getId true).connectionCounts.value id = _
      rw [started_value h]
      simp [brokenAt]
  | answered =>
    cases selected with
    | none =>
      change lb.connectionCounts.value id = _
      simp [brokenAt]
    | some inst =>
      change ((lb.updateStats inst.getId true).updateStats inst.getId
        false).connectionCounts.value id = _
      rw [ended_value h]
      simp [brokenAt]

theorem Counts.bounded (h : Counts turns lb) (hlength : (turns.length : Int) < intMax) :
    Bounded lb := by
  intro id
  have hle := broken_le turns id
  rw [h id]
  constructor
  · exact Int.natCast_nonneg _
  · omega

theorem taken_counts {found : Except Text (List ServiceInstance)} (h : Counts turns lb)
    (hlength : (turns.length : Int) < intMax) (taken : Taken leastConnection found lb turn lb') :
    Counts (turns ++ [turn]) lb' := by
  have hselected : Counts turns (selectFound leastConnection found lb).2 :=
    fun id => (selectFound_value found lb id).trans (h id)
  intro id
  rw [taken.settled, settled_value (hselected.bounded hlength), hselected id, broken_snoc]
  split <;> rfl

/-- What holds between the calls of a stub. -/
structure Sound (s : Calling LeastConnectionLoadBalancer) : Prop where
  discovering : InstanceTarget.Discovering s.stub
  target : OnTarget s.stub
  counts : Counts s.turns s.stub.directory

theorem step_sound {s t : Calling LeastConnectionLoadBalancer} (sound : Sound s)
    (hlength : (s.turns.length : Int) < intMax) (h : step leastConnection s call = some t) :
    Sound t ∧ t.turns.length = s.turns.length + 1 := by
  obtain ⟨turn, hturns, hd, htarget, taken⟩ := step_turn sound.discovering sound.target h
  refine ⟨⟨hd, htarget, ?_⟩, ?_⟩
  · rw [hturns]
    exact taken_counts sound.counts hlength taken
  · rw [hturns, List.length_append, List.length_singleton]

theorem run_sound {calls : List (Call ν)} {s t : Calling LeastConnectionLoadBalancer}
    (sound : Sound s) (hlength : (s.turns.length + calls.length : Int) ≤ intMax)
    (h : run (step leastConnection) s calls = some t) :
    Sound t ∧ t.turns.length = s.turns.length + calls.length := by
  induction calls generalizing s with
  | nil =>
    cases h
    exact ⟨sound, rfl⟩
  | cons call calls ih =>
    obtain ⟨u, hstep, hrest⟩ := run_cons_some.mp h
    rw [List.length_cons] at hlength ⊢
    push_cast at hlength
    obtain ⟨sound', hone⟩ := step_sound sound (by omega) hstep
    obtain ⟨sound'', hmore⟩ := ih sound' (by omega) hrest
    exact ⟨sound'', by omega⟩

/-- The balancer takes the first of the instances with the fewest broken calls. -/
theorem selects_first (h : Counts turns lb) (hlength : (turns.length : Int) < intMax)
    {instances : List ServiceInstance} (hsome : ∃ inst ∈ instances, inst.isHealthy) :
    ∃ inst before rest, (selectFound leastConnection (.ok instances) lb).1 = some inst ∧
      instances.filter (·.isHealthy) = before ++ inst :: rest ∧
      (∀ x ∈ before, broken turns inst.getId < broken turns x.getId) ∧
      ∀ x ∈ rest, broken turns inst.getId ≤ broken turns x.getId := by
  obtain ⟨x, hx, hhealthy⟩ := hsome
  obtain ⟨healthy, hinstances, hselect⟩ := selectHealthy_ok choose hx hhealthy lb
  obtain ⟨before, rest, hsplit, hbefore, hrest⟩ := LeastConnections.choose_first_minimal
    fun inst (_ : inst ∈ healthy.instances) => (h.bounded hlength inst.getId).2
  refine ⟨(choose healthy lb).1, before, rest, ?_, hinstances.symm.trans hsplit, ?_, ?_⟩
  · have hne : instances ≠ [] := List.ne_nil_of_mem hx
    simp only [selectFound, List.isEmpty_eq_false_iff.mpr hne, Bool.false_eq_true, if_false]
    change ((LeastConnectionLoadBalancer.select instances lb).1.toOption) = _
    rw [LeastConnectionLoadBalancer.select, hselect]
    rfl
  · intro x hx
    have hlt := hbefore x hx
    rw [h, h] at hlt
    exact Int.ofNat_lt.mp hlt
  · intro x hx
    have hle := hrest x hx
    rw [h, h] at hle
    exact Int.ofNat_le.mp hle

/-- On one stub no call is under way when another selects, so that the counts are those of the
calls that have thrown, and each call goes to the first of the healthy instances with the fewest. -/
theorem calls_avoid_broken {serviceName : Text} {dials : List (Option TcpClient)}
    {calls : List (Call ν)} {t u : Calling LeastConnectionLoadBalancer}
    (hrun : run (step leastConnection) (start serviceName leastConnection {} dials) calls = some t)
    (hlength : calls.length < 2 ^ 31 - 1) (hstep : step leastConnection t call = some u)
    {instances : List ServiceInstance} (hfound : call.found = .ok instances)
    (hsome : ∃ inst ∈ instances, inst.isHealthy) :
    (∀ id, t.stub.directory.connectionCounts.value id = broken t.turns id) ∧
    ∃ turn inst before rest, u.turns = t.turns ++ [turn] ∧ turn.selected = some inst ∧ turn.Aimed ∧
      instances.filter (·.isHealthy) = before ++ inst :: rest ∧
      (∀ x ∈ before, broken t.turns inst.getId < broken t.turns x.getId) ∧
      ∀ x ∈ rest, broken t.turns inst.getId ≤ broken t.turns x.getId := by
  obtain ⟨hd, htarget⟩ := start_sound serviceName leastConnection {} dials
  have hstart : Sound (start serviceName leastConnection {} dials) := ⟨hd, htarget, fun _ => rfl⟩
  have hempty : (start serviceName leastConnection {} dials).turns.length = 0 := rfl
  have hroom : (calls.length : Int) < intMax := by
    rw [intMax]
    omega
  obtain ⟨sound, hturns⟩ := run_sound hstart (by omega) hrun
  rw [hempty, Nat.zero_add] at hturns
  obtain ⟨turn, hmore, -, -, taken⟩ := step_turn sound.discovering sound.target hstep
  rw [hfound] at taken
  obtain ⟨inst, before, rest, hselected, hsplit, hbefore, hrest⟩ :=
    selects_first sound.counts (by omega) hsome
  exact ⟨sound.counts, turn, inst, before, rest, hmore, taken.selected.trans hselected,
    taken.aimed, hsplit, hbefore, hrest⟩

/-- The first connection breaks, and the second call goes to the other instance. -/
theorem calls_avoid_broken_gone : ∃ t u,
    run (step leastConnection) (start (text "A") leastConnection {}
      [some BalancedCounts.goneClient, some refusedClient])
      [callWith (.ok threeInstances)] = some t ∧
    step leastConnection t (callWith (.ok threeInstances)) = some u ∧
    u.turns.map (fun turn => (turn.peer, turn.ending)) =
      [(some (text "h", 1), .broken), (some (text "h", 3), .answered)] ∧
    (∀ id, t.stub.directory.connectionCounts.value id = broken t.turns id) ∧
    ∃ turn inst before rest, u.turns = t.turns ++ [turn] ∧ turn.selected = some inst ∧ turn.Aimed ∧
      [instanceAt 1 true, instanceAt 3 true] = before ++ inst :: rest ∧
      (∀ x ∈ before, broken t.turns inst.getId < broken t.turns x.getId) ∧
      ∀ x ∈ rest, broken t.turns inst.getId ≤ broken t.turns x.getId := by
  have hview : ∃ t, run (step leastConnection) (start (text "A") leastConnection {}
      [some BalancedCounts.goneClient, some refusedClient]) [callWith (.ok threeInstances)] =
        some t ∧
      (step leastConnection t (callWith (.ok threeInstances))).map (fun u =>
        u.turns.map fun turn => (turn.peer, turn.ending)) =
          some [(some (text "h", 1), .broken), (some (text "h", 3), .answered)] :=
    ⟨_, rfl, by decide +kernel⟩
  obtain ⟨t, hrun, hview⟩ := hview
  obtain ⟨u, hstep, hturns⟩ := Option.map_eq_some_iff.mp hview
  have hsome : ∃ inst ∈ threeInstances, inst.isHealthy := ⟨_, List.mem_cons_self, rfl⟩
  exact ⟨t, u, hrun, hstep, hturns, calls_avoid_broken hrun (by decide) hstep rfl hsome⟩

end Mprpc.BrokenCalls
