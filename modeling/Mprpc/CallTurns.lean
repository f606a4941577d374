import Mprpc.LoadBalancerFactory
import Mprpc.RoundRobinTurns
import Mprpc.SmoothWeights

namespace Mprpc.CallTurns

open Transport RpcProtocolHelper RpcClientStub CallTruth StubSteps InstanceTarget
open Library.Rotation Library.Transition

variable {β ν : Type} {balancer : LoadBalancer β}

/-- A call of a stub, with what the registry answers during it. -/
structure Call (ν : Type) where
  found : Except Text (List ServiceInstance)
  pb : Protobuf
  methodName : Text
  requestId : UInt64
  caller : Caller ν

def Call.directory (balancer : LoadBalancer β) (call : Call ν) : Directory β where
  discoverService := some fun _ b => (call.found, b)
  loadBalancer := some balancer

/-- A call has no connection, or it throws on the one it has, or a response has come. -/
inductive Ending
  | unready
  | broken
  | answered
deriving DecidableEq, Repr

def Ending.ofReply : Except Text RpcResponse → Ending
  | .ok _ => .answered
  | .error _ => .broken

/-- What there is to see of a call: the instance it has selected, the address it has written to,
and its end. -/
structure Turn where
  selected : Option ServiceInstance
  peer : Option (Text × UInt16)
  ending : Ending
deriving DecidableEq

/-- A stub next to its calls so far. -/
structure Calling (β : Type) where
  stub : RpcClientStub β
  turns : List Turn

def writesTo (stub : RpcClientStub β) : Option (Text × UInt16) :=
  match stub.tcpClient with
  | none => none
  | some client => if client.state = .connected then stub.peer else none

def endingOf (stub : RpcClientStub β) (call : Call ν) : Option Ending :=
  (exec (sendRpcRequest call.pb (requestOf stub call.methodName call.requestId call.caller))
    stub).map fun p => .ofReply p.1

def turnOf (balancer : LoadBalancer β) (stub : RpcClientStub β) (call : Call ν) : Option Turn := do
  let (selected, _) ← exec (selectServiceInstance (call.directory balancer)) stub
  let (ready, stub) ← exec (prepare (call.directory balancer)) stub
  match ready with
  | .ok true => return ⟨selected.toOption, writesTo stub, ← endingOf stub call⟩
  | _ => return ⟨selected.toOption, none, .unready⟩

def step (balancer : LoadBalancer β) (s : Calling β) (call : Call ν) : Option (Calling β) := do
  let turn ← turnOf balancer s.stub call
  let stub ← StubSteps.step s.stub (.callMethod call.pb (call.directory balancer) call.methodName
    call.requestId call.caller)
  return ⟨stub, s.turns ++ [turn]⟩

/-- What the balancer makes of what has been discovered. -/
def selectFound (balancer : LoadBalancer β) (found : Except Text (List ServiceInstance)) (b : β) :
    Option ServiceInstance × β :=
  match found with
  | .error _ => (none, b)
  | .ok instances =>
    if instances.isEmpty then (none, b)
    else ((balancer.select instances b).1.toOption, (balancer.select instances b).2)

/-- What the rest of the call does to the balancer. -/
def settled (balancer : LoadBalancer β) (turn : Turn) (b : β) : β :=
  if balancer.getName = text "LeastConnection" then
    match turn with
    | ⟨_, _, .unready⟩ | ⟨none, _, _⟩ => b
    | ⟨some inst, _, .broken⟩ => balancer.updateStats inst.getId true b
    | ⟨some inst, _, .answered⟩ =>
      balancer.updateStats inst.getId false (balancer.updateStats inst.getId true b)
  else b

/-- If the call has written anything, then to the instance that it has selected. -/
def Turn.Aimed (turn : Turn) : Prop :=
  ∀ address, turn.peer = some address →
    ∃ inst, turn.selected = some inst ∧ address = (inst.host, inst.port)

/-- A turn, by what the balancer has been before and is after it. -/
structure Taken (balancer : LoadBalancer β) (found : Except Text (List ServiceInstance)) (b : β)
    (turn : Turn) (b' : β) : Prop where
  selected : turn.selected = (selectFound balancer found b).1
  settled : b' = settled balancer turn (selectFound balancer found b).2
  aimed : turn.Aimed

section Step

variable {stub stub' : RpcClientStub β} {call : Call ν} {s t : Calling β}

theorem exec_selectFound (balancer : LoadBalancer β) (call : Call ν) (stub : RpcClientStub β) :
    ∃ r, exec (selectServiceInstance (call.directory balancer)) stub =
        some (r, { stub with directory := (selectFound balancer call.found stub.directory).2 }) ∧
      r.toOption = (selectFound balancer call.found stub.directory).1 := by
  rw [exec_select rfl]
  simp only [Call.directory, selectFound]
  cases call.found with
  | error e => exact ⟨_, rfl, rfl⟩
  | ok instances =>
    dsimp only
    split
    · exact ⟨_, rfl, rfl⟩
    · exact ⟨_, rfl, rfl⟩

theorem counted_start (balancer : LoadBalancer β) (stub : RpcClientStub β) {inst : ServiceInstance}
    (hid : stub.currentInstanceId = inst.getId) :
    (counted balancer true stub).currentInstanceId = inst.getId ∧
      (counted balancer true stub).useServiceDiscovery = stub.useServiceDiscovery ∧
      (counted balancer true stub).directory = if balancer.getName = text "LeastConnection" then
          balancer.updateStats inst.getId true stub.directory
        else stub.directory := by
  rw [← hid]
  unfold counted
  split
  · exact ⟨rfl, rfl, rfl⟩
  · exact ⟨rfl, rfl, rfl⟩

theorem prepares_counted (hmode : stub.useServiceDiscovery = true)
    (h : Prepares (call.directory balancer) stub (.ok true) stub') :
    ∃ inst, (selectFound balancer call.found stub.directory).1 = some inst ∧
      stub'.currentInstanceId = inst.getId ∧ stub'.useServiceDiscovery = true ∧
      stub'.directory = if balancer.getName = text "LeastConnection" then
          balancer.updateStats inst.getId true (selectFound balancer call.found stub.directory).2
        else (selectFound balancer call.found stub.directory).2 := by
  obtain ⟨r, hselect, hselected⟩ := exec_selectFound balancer call stub
  cases h with
  | reuses _ hsel _ hid hlb =>
    rw [hselect] at hsel
    cases hsel
    cases hlb
    obtain ⟨hsame, hkept, hdirectory⟩ := counted_start balancer
      { stub with directory := (selectFound balancer call.found stub.directory).2 } hid
    exact ⟨_, hselected.symm, hsame, hkept.trans hmode, hdirectory⟩
  | @switches inst d client dials _ _ hsel _ _ hlb =>
    rw [hselect] at hsel
    cases hsel
    cases hlb
    obtain ⟨hsame, hkept, hdirectory⟩ := counted_start balancer
      { opened (aimed { stub with
          directory := (selectFound balancer call.found stub.directory).2 } inst) client dials with
        currentInstanceId := inst.getId } rfl
    exact ⟨_, hselected.symm, hsame, hkept.trans hmode, hdirectory⟩
  | connected hdirect _ =>
    rw [hmode] at hdirect
    cases hdirect
  | connects hdirect _ _ =>
    rw [hmode] at hdirect
    cases hdirect

theorem prepares_unready {r : Except Text Bool} (hmode : stub.useServiceDiscovery = true)
    (hr : r ≠ .ok true) (h : Prepares (call.directory balancer) stub r stub') :
    stub'.directory = (selectFound balancer call.found stub.directory).2 := by
  obtain ⟨r', hselect, -⟩ := exec_selectFound balancer call stub
  cases h with
  | throws _ hsel =>
    rw [hselect] at hsel
    cases hsel
    rfl
  | switchFails _ hsel _ _ =>
    rw [hselect] at hsel
    cases hsel
    rfl
  | connectFails hdirect _ _ =>
    rw [hmode] at hdirect
    cases hdirect
  | reuses => exact absurd rfl hr
  | switches => exact absurd rfl hr
  | connected => exact absurd rfl hr
  | connects => exact absurd rfl hr

theorem cleaned_directory (balancer : LoadBalancer β) (call : Call ν) (stub : RpcClientStub β)
    {inst : ServiceInstance} (hmode : stub.useServiceDiscovery = true)
    (hid : stub.currentInstanceId = inst.getId) :
    (cleaned (call.directory balancer) stub).directory =
      if balancer.getName = text "LeastConnection" then
        balancer.updateStats inst.getId false stub.directory
      else stub.directory := by
  have hnonempty : stub.currentInstanceId.isEmpty = false := by
    rw [hid, List.isEmpty_eq_false_iff]
    exact inst.getId_ne_nil
  simp only [cleaned, Call.directory, hmode, hnonempty, Bool.not_false, Bool.and_self, if_true]
  rw [← hid]
  unfold counted
  split <;> rfl

theorem writesTo_selected (hd : Discovering stub) (htarget : OnTarget stub)
    (hprepare : exec (prepare (call.directory balancer)) stub = some (.ok true, stub'))
    {address : Text × UInt16} (hwrites : writesTo stub' = some address) :
    ∃ inst, (selectFound balancer call.found stub.directory).1 = some inst ∧
      address = (inst.host, inst.port) := by
  obtain ⟨inst, hselected, -⟩ := prepares_counted hd.mode (prepares_of_exec hprepare)
  obtain ⟨r, hselect, hr⟩ := exec_selectFound balancer call stub
  rw [hselected] at hr
  cases r with
  | error e => cases hr
  | ok inst' =>
    cases hr
    rw [writesTo] at hwrites
    split at hwrites
    · cases hwrites
    · rename_i client hclient
      split at hwrites
      · rename_i hconnected
        have hpeer := faithful_of_onTarget hd htarget _ _ _ _ _ hselect hprepare hclient hconnected
        rw [hpeer] at hwrites
        cases hwrites
        exact ⟨_, hselected, rfl⟩
      · cases hwrites

theorem settled_unready (selected : Option ServiceInstance) (peer : Option (Text × UInt16))
    (b : β) :
    settled balancer ⟨selected, peer, .unready⟩ b = b := by
  unfold settled
  split <;> rfl

theorem settled_answered (inst : ServiceInstance) (peer : Option (Text × UInt16)) (b : β) :
    settled balancer ⟨some inst, peer, .answered⟩ b =
      if balancer.getName = text "LeastConnection" then
        balancer.updateStats inst.getId false (balancer.updateStats inst.getId true b)
      else b := rfl

theorem turn_taken (hd : Discovering stub) (htarget : OnTarget stub) {turn : Turn}
    (hturn : turnOf balancer stub call = some turn)
    (hstep : StubSteps.step stub (.callMethod call.pb (call.directory balancer) call.methodName
      call.requestId call.caller) = some stub') :
    Taken balancer call.found stub.directory turn stub'.directory := by
  obtain ⟨⟨result, stub'⟩, hcall, rfl⟩ := Option.map_eq_some_iff.mp hstep
  obtain ⟨selected, hselect, hselected⟩ := exec_selectFound balancer call stub
  rw [exec_callMethod] at hcall
  obtain ⟨⟨ready, stub₁⟩, hprepare, hcall⟩ := Option.bind_eq_some_iff.mp hcall
  have hprepares := prepares_of_exec hprepare
  simp only [turnOf, hselect, hprepare, Option.bind_eq_bind, Option.bind_some] at hturn
  dsimp only at hcall
  split at hcall
  · cases hturn
    cases hcall
    refine ⟨hselected, ?_, fun _ h => by cases h⟩
    rw [settled_unready]
    exact prepares_unready hd.mode (by simp) hprepares
  · cases hturn
    cases hcall
    refine ⟨hselected, ?_, fun _ h => by cases h⟩
    rw [settled_unready]
    exact prepares_unready hd.mode (by simp) hprepares
  · obtain ⟨inst, hinst, hid, hmode, hcounted⟩ := prepares_counted hd.mode hprepares
    obtain ⟨⟨reply, stub₂⟩, hsend, hcall⟩ := Option.map_eq_some_iff.mp hcall
    rw [endingOf, hsend] at hturn
    cases hturn
    obtain ⟨c, rfl, -⟩ := sendRpcRequest_kept hsend
    refine ⟨hselected, ?_, fun address hwrites => ?_⟩
    · rw [hselected, hinst]
      cases reply with
      | error e =>
        cases hcall
        exact hcounted
      | ok response =>
        cases hcall
        refine (cleaned_directory balancer call { stub₁ with tcpClient := c } hmode hid).trans ?_
        refine Eq.trans ?_ (settled_answered inst _ _).symm
        rw [hcounted]
        split <;> rfl
    · rw [hselected]
      exact writesTo_selected hd htarget hprepare hwrites

/-- One call: what it has been, by the balancer before it and after it. -/
theorem step_turn (hd : Discovering s.stub) (htarget : OnTarget s.stub)
    (h : step balancer s call = some t) :
    ∃ turn, t.turns = s.turns ++ [turn] ∧ Discovering t.stub ∧ OnTarget t.stub ∧
      Taken balancer call.found s.stub.directory turn t.stub.directory := by
  obtain ⟨turn, hturn, h⟩ := Option.bind_eq_some_iff.mp h
  obtain ⟨stub', hstep, h⟩ := Option.bind_eq_some_iff.mp h
  cases h
  have haimed : Aimed s.stub (.callMethod call.pb (call.directory balancer) call.methodName
      call.requestId call.caller) := trivial
  refine ⟨turn, rfl, step_discovering _ _ _ hd hstep,
    (step_onTarget_iff hd htarget _).mpr haimed _ hstep, ?_⟩
  exact turn_taken hd htarget hturn hstep

end Step

/-- The selections that one discovery after the other comes to. -/
def selections (balancer : LoadBalancer β) :
    List (Except Text (List ServiceInstance)) → β → List (Option ServiceInstance) × β
  | [], b => ([], b)
  | found :: rest, b =>
    let (selected, b) := selectFound balancer found b
    let (more, b) := selections balancer rest b
    (selected :: more, b)

/-- A new stub of the constructor for service discovery. -/
def start (serviceName : Text) (balancer : LoadBalancer β) (b : β)
    (dials : List (Option TcpClient)) :
    Calling β :=
  ⟨discovering serviceName ⟨β, balancer, b⟩ dials, []⟩

section Run

variable {calls : List (Call ν)} {s t : Calling β}

theorem start_sound (serviceName : Text) (balancer : LoadBalancer β) (b : β)
    (dials : List (Option TcpClient)) :
    InstanceTarget.Discovering (start serviceName balancer b dials).stub ∧
      OnTarget (start serviceName balancer b dials).stub :=
  ⟨⟨rfl, .inl rfl⟩, fun _ hc => by cases hc⟩

theorem selections_cons (found : Except Text (List ServiceInstance))
    (founds : List (Except Text (List ServiceInstance))) (b : β) :
    selections balancer (found :: founds) b =
      ((selectFound balancer found b).1 ::
          (selections balancer founds (selectFound balancer found b).2).1,
        (selections balancer founds (selectFound balancer found b).2).2) := rfl

theorem selections_length (founds : List (Except Text (List ServiceInstance))) (b : β) :
    (selections balancer founds b).1.length = founds.length := by
  induction founds generalizing b with
  | nil => rfl
  | cons found founds ih => rw [selections_cons, List.length_cons, ih, List.length_cons]

theorem selections_append (founds more : List (Except Text (List ServiceInstance))) (b : β) :
    selections balancer (founds ++ more) b =
      ((selections balancer founds b).1 ++
          (selections balancer more (selections balancer founds b).2).1,
        (selections balancer more (selections balancer founds b).2).2) := by
  induction founds generalizing b with
  | nil => rfl
  | cons found founds ih =>
    rw [List.cons_append, selections_cons, ih, selections_cons, List.cons_append]

/-- The calls of a run select what the balancer comes to on what they discover, however they
end, unless the balancer counts them. -/
theorem run_turns (hname : balancer.getName ≠ text "LeastConnection")
    (hd : InstanceTarget.Discovering s.stub) (htarget : OnTarget s.stub)
    (h : run (step balancer) s calls = some t) :
    ∃ turns, t.turns = s.turns ++ turns ∧ (InstanceTarget.Discovering t.stub ∧ OnTarget t.stub) ∧
      turns.map (·.selected) = (selections balancer (calls.map (·.found)) s.stub.directory).1 ∧
      t.stub.directory = (selections balancer (calls.map (·.found)) s.stub.directory).2 ∧
      ∀ turn ∈ turns, turn.Aimed := by
  induction calls generalizing s with
  | nil =>
    cases h
    exact ⟨[], (List.append_nil _).symm, ⟨hd, htarget⟩, rfl, rfl, fun _ h => by cases h⟩
  | cons call calls ih =>
    obtain ⟨u, hstep, hrest⟩ := run_cons_some.mp h
    obtain ⟨turn, hturns, hd', htarget', taken⟩ := step_turn hd htarget hstep
    obtain ⟨turns, hmore, hsound, hselected, hdirectory, haimed⟩ := ih hd' htarget' hrest
    have hsettled : u.stub.directory = (selectFound balancer call.found s.stub.directory).2 :=
      taken.settled.trans (if_neg hname)
    rw [hsettled] at hselected hdirectory
    refine ⟨turn :: turns, ?_, hsound, ?_, hdirectory, ?_⟩
    · rw [hmore, hturns, List.append_assoc, List.singleton_append]
    · rw [List.map_cons, hselected, taken.selected, List.map_cons, selections_cons]
    · intro turn' hturn'
      obtain rfl | hturn' := List.mem_cons.mp hturn'
      · exact taken.aimed
      · exact haimed turn' hturn'

theorem founds_eq {found : Except Text (List ServiceInstance)}
    (hfound : ∀ call ∈ calls, call.found = found) :
    calls.map (·.found) = List.replicate calls.length found := by
  rw [List.eq_replicate_iff, List.length_map]
  refine ⟨rfl, ?_⟩
  intro found' hmem
  obtain ⟨call, hcall, rfl⟩ := List.mem_map.mp hmem
  exact hfound call hcall

theorem selections_replicate {instances : List ServiceInstance} (hne : instances ≠ [])
    (selects : Nat → β → List (Except Text ServiceInstance) × β)
    (hzero : ∀ b, selects 0 b = ([], b))
    (hsucc : ∀ n b, selects (n + 1) b =
      ((selects n b).1 ++ [(balancer.select instances (selects n b).2).1],
        (balancer.select instances (selects n b).2).2)) (n : Nat) (b : β) :
    selections balancer (List.replicate n (.ok instances)) b =
      ((selects n b).1.map Except.toOption, (selects n b).2) := by
  induction n with
  | zero =>
    rw [hzero]
    rfl
  | succ n ih =>
    have hlast : ∀ b, selections balancer [.ok instances] b =
        ([(balancer.select instances b).1.toOption], (balancer.select instances b).2) := by
      intro b
      simp [selections, selectFound, hne]
    rw [List.replicate_succ', selections_append, ih, hlast, hsucc, List.map_append,
      List.map_singleton]

end Run

section RoundRobin

variable {calls before : List (Call ν)} {s t : Calling RoundRobinLoadBalancer}
  {instances : List ServiceInstance}

open DiscoveredCalls

theorem selectFound_index (found : Except Text (List ServiceInstance))
    (lb : RoundRobinLoadBalancer) :
    (selectFound roundRobin found lb).2.currentIndex.toNat ≤ lb.currentIndex.toNat + 1 := by
  have hnext : (lb.currentIndex + 1).toNat ≤ lb.currentIndex.toNat + 1 := by
    rw [UInt64.toNat_add]
    exact Nat.mod_le _ _
  cases found with
  | error e => exact Nat.le_succ _
  | ok instances =>
    simp only [selectFound, roundRobin, RoundRobinLoadBalancer.select, selectHealthy]
    split
    · exact Nat.le_succ _
    · cases healthyInstances instances with
      | error e => exact Nat.le_succ _
      | ok healthy => exact hnext

theorem selections_index (founds : List (Except Text (List ServiceInstance)))
    (lb : RoundRobinLoadBalancer) :
    (selections roundRobin founds lb).2.currentIndex.toNat ≤
      lb.currentIndex.toNat + founds.length := by
  induction founds generalizing lb with
  | nil => exact Nat.le_refl _
  | cons found founds ih =>
    have hfirst := selectFound_index found lb
    have hrest := ih (selectFound roundRobin found lb).2
    rw [List.length_cons]
    exact hrest.trans (by omega)

/-- In every window of the calls of a stub that discovers one list, the calls go around its healthy
instances, whatever else was discovered before and however the calls end. -/
theorem calls_even {serviceName : Text} {dials : List (Option TcpClient)}
    (hbefore : run (step roundRobin) (start serviceName roundRobin {} dials) before = some s)
    (hrun : run (step roundRobin) s calls = some t)
    (hfound : ∀ call ∈ calls, call.found = .ok instances)
    (hsome : ∃ inst ∈ instances, inst.isHealthy)
    (hlength : before.length + calls.length ≤ 2 ^ 64) :
    ∃ turns positions, t.turns = s.turns ++ turns ∧ positions.length = calls.length ∧
      Even (instances.filter (·.isHealthy)).length positions ∧
      turns.map (·.selected) = positions.map ((instances.filter (·.isHealthy))[·]?) ∧
      ∀ turn ∈ turns, turn.Aimed := by
  have hname : roundRobin.getName ≠ text "LeastConnection" := by decide
  obtain ⟨hd, htarget⟩ := start_sound serviceName roundRobin {} dials
  obtain ⟨-, -, ⟨hd', htarget'⟩, -, hdirectory, -⟩ := run_turns hname hd htarget hbefore
  obtain ⟨turns, hturns, -, hselected, -, haimed⟩ := run_turns hname hd' htarget' hrun
  have hindex : s.stub.directory.currentIndex.toNat + calls.length ≤ 2 ^ 64 := by
    have hle := selections_index (before.map (·.found)) {}
    rw [List.length_map, show ({} : RoundRobinLoadBalancer).currentIndex.toNat = 0 from rfl] at hle
    rw [hdirectory]
    exact (Nat.add_le_add_right hle _).trans (by omega)
  obtain ⟨inst, hmem, hhealthy⟩ := hsome
  obtain ⟨healthy, hok, hlist⟩ := healthyInstances_ok hmem hhealthy
  obtain ⟨positions, hcount, heven, hpositions⟩ :=
    RoundRobinTurns.selects_even hok hlist s.stub.directory hindex
  rw [founds_eq hfound, selections_replicate (List.ne_nil_of_mem hmem)
    (RoundRobinTurns.selects instances) (fun _ => rfl) (RoundRobinTurns.selects_succ instances),
    hpositions] at hselected
  rw [← hlist]
  exact ⟨turns, positions, hturns, hcount, heven, hselected, haimed⟩

def callWith (found : Except Text (List ServiceInstance)) : Call Unit :=
  ⟨found, runtime, text "B", 7, emptyCaller⟩

theorem callWith_found (n : Nat) (found : Except Text (List ServiceInstance)) :
    ∀ call ∈ List.replicate n (callWith found), call.found = found := by
  intro call hcall
  rw [List.eq_of_mem_replicate hcall]
  rfl

def instanceAt (port : UInt16) (isHealthy : Bool) : ServiceInstance :=
  ⟨text "A", text "h", port, 1, isHealthy, 0, []⟩

/-- Two healthy instances around one that is not. -/
def threeInstances : List ServiceInstance :=
  [instanceAt 1 true, instanceAt 2 false, instanceAt 3 true]

/-- The first of the three calls cannot connect. -/
theorem calls_even_refused : ∃ s t turns positions,
    run (step roundRobin) (start (text "A") roundRobin {} [none, some refusedClient,
      some refusedClient]) [callWith (.error [])] = some s ∧
    run (step roundRobin) s (List.replicate 3 (callWith (.ok threeInstances))) = some t ∧
    t.turns.map (·.peer) = [none, none, some (text "h", 3), some (text "h", 1)] ∧
    t.turns = s.turns ++ turns ∧ positions.length = 3 ∧ Even 2 positions ∧
    turns.map (·.selected) = positions.map ([instanceAt 1 true, instanceAt 3 true][·]?) ∧
    ∀ turn ∈ turns, turn.Aimed := by
  have hafter : ∃ s, run (step roundRobin) (start (text "A") roundRobin {} [none,
      some refusedClient, some refusedClient]) [callWith (.error [])] = some s ∧
      (run (step roundRobin) s (List.replicate 3 (callWith (.ok threeInstances)))).map
        (fun t => t.turns.map (·.peer)) =
          some [none, none, some (text "h", 3), some (text "h", 1)] :=
    ⟨_, rfl, by decide +kernel⟩
  obtain ⟨s, hbefore, hview⟩ := hafter
  obtain ⟨t, hrun, hpeers⟩ := Option.map_eq_some_iff.mp hview
  have hsome : ∃ inst ∈ threeInstances, inst.isHealthy := ⟨_, List.mem_cons_self, rfl⟩
  obtain ⟨turns, positions, hturns, hcount, heven, hselected, haimed⟩ :=
    calls_even hbefore hrun (callWith_found 3 _) hsome (by decide)
  exact ⟨s, t, turns, positions, hbefore, hrun, hpeers, hturns, hcount, heven, hselected, haimed⟩

end RoundRobin

section Weighted

open LoadBalancerFactory SmoothWeights

variable {calls : List (Call ν)} {t : Calling WeightedRoundRobinLoadBalancer}
  {instances : List ServiceInstance}

theorem count_toOption (results : List (Except Text ServiceInstance)) (inst : ServiceInstance) :
    (results.map Except.toOption).count (some inst) = results.count (.ok inst) := by
  rw [List.count, List.countP_map, List.count]
  apply List.countP_congr
  intro result _
  cases result with
  | error e => simp [Except.toOption]
  | ok x => simp [Except.toOption]

theorem count_take {turns : List Turn} {n : Nat}
    (hselected : turns.map (·.selected) =
      (selects instances n (WeightedRoundRobinLoadBalancer.reset {})).1.map Except.toOption)
    {u : Nat} (hu : u ≤ n) (inst : ServiceInstance) :
    ((turns.map (·.selected)).take u).count (some inst) =
      (selects instances u (WeightedRoundRobinLoadBalancer.reset {})).1.count (.ok inst) := by
  obtain ⟨more, rfl⟩ := Nat.exists_eq_add_of_le hu
  rw [hselected, ← List.map_take, selects_add, count_toOption]

/-- The calls of a stub that discovers one list: in every block each healthy instance is called as
often as its weight says, and on the way none is a turn ahead, or behind by more turns than there
are others. -/
theorem calls_weighted {serviceName : Text} {dials : List (Option TcpClient)}
    (hrun : run (step weightedRoundRobin) (start serviceName weightedRoundRobin {} dials) calls =
      some t)
    (hfound : ∀ call ∈ calls, call.found = .ok instances) (hw : Weighted (healthyOf instances)) :
    (∀ m, (m + 1) * blockLength instances ≤ calls.length → ∀ inst ∈ healthyOf instances,
      ((((t.turns.map (·.selected)).drop (m * blockLength instances)).take
        (blockLength instances)).count (some inst) : Int) = inst.weight) ∧
    (∀ u ≤ calls.length, ∀ inst ∈ healthyOf instances,
      blockLength instances * (((t.turns.map (·.selected)).take u).count (some inst) : Int) <
          u * inst.weight + blockLength instances ∧
        u * inst.weight ≤ blockLength instances *
          (((t.turns.map (·.selected)).take u).count (some inst) +
            ((healthyOf instances).length - 1) : Int)) ∧
    ∀ turn ∈ t.turns, turn.Aimed := by
  have hname : weightedRoundRobin.getName ≠ text "LeastConnection" := by decide
  obtain ⟨hd, htarget⟩ := start_sound serviceName weightedRoundRobin {} dials
  obtain ⟨turns, hturns, -, hselected, -, haimed⟩ := run_turns hname hd htarget hrun
  obtain rfl : t.turns = turns := hturns
  rw [founds_eq hfound] at hselected
  have hresults : ∀ inst ∈ healthyOf instances, t.turns.map (·.selected) =
      (selects instances calls.length (WeightedRoundRobinLoadBalancer.reset {})).1.map
        Except.toOption := by
    intro inst hi
    rw [hselected, selections_replicate (List.ne_nil_of_mem (List.mem_filter.mp hi).1)
      (selects instances) (fun _ => rfl) (fun _ _ => rfl)]
    rfl
  refine ⟨?_, ?_, haimed⟩
  · intro m hm inst hi
    have hblock := count_blocks hw {} hi (m + 1)
    have hbefore := count_blocks hw {} hi m
    rw [← count_take (hresults inst hi) hm] at hblock
    rw [← count_take (hresults inst hi)
      ((Nat.mul_le_mul_right _ (Nat.le_succ m)).trans hm)] at hbefore
    rw [Nat.succ_mul, List.take_add, List.count_append] at hblock
    push_cast at hblock
    rw [hbefore, add_mul] at hblock
    omega
  · intro u hu inst hi
    obtain ⟨picks, c, hpicks, hlen, hs, -⟩ := selects_schedule hw (List.ne_nil_of_mem hi) u {}
    rw [count_take (hresults inst hi) hu, hpicks, count_ok, hw.blockLength_eq, ← hlen]
    have hi' := List.mem_toFinset.mpr hi
    refine ⟨hs.count_lt hw.pos hi', ?_⟩
    have hbehind := hs.le_card hw.pos hi'
    rw [hs.counter_eq, List.toFinset_card_of_nodup hw.ids.of_map] at hbehind
    linarith

/-- Two calls of three go to the instance whose weight is 2. -/
theorem calls_weighted_block : ∃ t,
    run (step weightedRoundRobin) (start (text "A") weightedRoundRobin {}
      (List.replicate 3 (some refusedClient))) (List.replicate 3 (callWith (.ok skewedInstances))) =
        some t ∧
    t.turns.map (·.peer) =
      [some (text "10.0.0.1", 8001), some (text "10.0.0.3", 8001), some (text "10.0.0.1", 8001)] ∧
    ∀ inst ∈ healthyOf skewedInstances,
      ((((t.turns.map (·.selected)).drop (0 * 3)).take 3).count (some inst) : Int) =
        inst.weight := by
  have hview : (run (step weightedRoundRobin) (start (text "A") weightedRoundRobin {}
      (List.replicate 3 (some refusedClient)))
      (List.replicate 3 (callWith (.ok skewedInstances)))).map
        (fun t => t.turns.map (·.peer)) = some [some (text "10.0.0.1", 8001),
          some (text "10.0.0.3", 8001), some (text "10.0.0.1", 8001)] := by
    decide +kernel
  obtain ⟨t, hrun, hpeers⟩ := Option.map_eq_some_iff.mp hview
  obtain ⟨hblock, -, -⟩ :=
    calls_weighted hrun (callWith_found 3 _) ⟨by decide, by decide, by decide⟩
  exact ⟨t, hrun, hpeers, hblock 0 (by decide)⟩

end Weighted

end Mprpc.CallTurns
