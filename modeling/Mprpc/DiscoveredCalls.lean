import Mprpc.BalancerContract
import Mprpc.InstanceTarget
import Mprpc.ServiceDirectory

namespace Mprpc.DiscoveredCalls

open Transport RpcProtocolHelper RpcClientStub CallTruth StubSteps BalancerContract InstanceTarget
open ZooKeeperRegistry ServiceDirectory Library.Transition

variable {zk : ZooKeeper} {β ν : Type}

/-- A registry and a balancer as a stub holds them; `what` is the text of an exception. -/
def directoryOf (what : Decimal.NumberError → Text) (balancer : LoadBalancer β)
    (r : ZooKeeperRegistry) (t : zk.Tree) : Directory β where
  discoverService := some fun serviceName b =>
    match discoverService zk r serviceName t with
    | .error e => (.error (what e), b)
    | .ok instances => (.ok instances, b)
  loadBalancer := some balancer

/-- A stub among the registries of a fleet. -/
structure System (zk : ZooKeeper) (β : Type) where
  fleet : Fleet zk
  stub : RpcClientStub β

/-- Something happens to the registries, or a call is made that asks one of them. -/
inductive Act (ν : Type)
  | fleet (event : Nat × Event)
  | call (i : Nat) (pb : Protobuf) (methodName : Text) (requestId : UInt64) (caller : Caller ν)

def System.directory (what : Decimal.NumberError → Text) (balancer : LoadBalancer β)
    (s : System zk β) (i : Nat) : Directory β :=
  directoryOf what balancer (s.fleet.registry i) s.fleet.tree

def step (what : Decimal.NumberError → Text) (balancer : LoadBalancer β) (s : System zk β) :
    Act ν → Option (System zk β)
  | .fleet event =>
    (ServiceDirectory.step s.fleet event).map fun fleet => { s with fleet := fleet }
  | .call i pb methodName requestId caller =>
    (StubSteps.step s.stub
      (.callMethod pb (s.directory what balancer i) methodName requestId caller)).map
        fun stub => { s with stub := stub }

def Allowed : Act ν → Prop
  | .fleet event => Proper event
  | .call .. => True

/-- A call made now that has a connection to write on writes to a healthy instance
that an open session has registered for the service. -/
def ReachesLiving (what : Decimal.NumberError → Text) (balancer : LoadBalancer β)
    (s : System zk β) : Prop :=
  ∀ i stub client, exec (prepare (s.directory what balancer i)) s.stub = some (.ok true, stub) →
    stub.tcpClient = some client → client.state = .connected →
    ∃ inst, Living s.fleet s.stub.serviceName inst ∧ inst.isHealthy = true ∧
      stub.peer = some (inst.host, inst.port)

variable {what : Decimal.NumberError → Text} {balancer : LoadBalancer β} {s : System zk β}

section Selection

variable {stub stub' : RpcClientStub β} {r : ZooKeeperRegistry} {t : zk.Tree}

theorem prepare_selected {directory : Directory β} (hmode : stub.useServiceDiscovery = true)
    (h : Prepares directory stub (.ok true) stub') :
    ∃ inst stub₁, exec (selectServiceInstance directory) stub = some (.ok inst, stub₁) := by
  cases h with
  | reuses _ hsel _ _ _ => exact ⟨_, _, hsel⟩
  | switches _ hsel _ _ _ => exact ⟨_, _, hsel⟩
  | connected hdirect _ =>
    rw [hmode] at hdirect
    cases hdirect
  | connects hdirect _ _ =>
    rw [hmode] at hdirect
    cases hdirect

theorem selected_discovered (honors : Honors balancer.select) {inst : ServiceInstance}
    (h : exec (selectServiceInstance (directoryOf what balancer r t)) stub =
      some (.ok inst, stub')) :
    ∃ instances, discoverService zk r stub.serviceName t = .ok instances ∧
      inst ∈ instances ∧ inst.isHealthy := by
  rw [exec_select rfl] at h
  cases hfound : discoverService zk r stub.serviceName t with
  | error e =>
    simp only [hfound] at h
    cases h
  | ok instances =>
    simp only [hfound, directoryOf] at h
    split at h
    · cases h
    · have hsel : (balancer.select instances stub.directory).1 = .ok inst :=
        congrArg Prod.fst (Option.some.inj h)
      exact ⟨instances, rfl, honors.returns instances stub.directory inst hsel⟩

theorem prepares_serviceName {directory : Directory β} {result : Except Text Bool}
    (h : Prepares directory stub result stub') : stub'.serviceName = stub.serviceName := by
  refine h.invariant (P := fun t => t.serviceName = stub.serviceName) (fun _ _ h => h) rfl
    (fun _ _ _ => rfl) (fun _ _ _ _ => rfl) ?_
  intro _ result t hconnects
  cases hconnects with
  | stays hc => rfl
  | fails hc hdials => rfl
  | opens hc hdials => rfl

theorem call_serviceName {pb : Protobuf} {directory : Directory β} {methodName : Text}
    {requestId : UInt64} {caller : Caller ν}
    (h : StubSteps.step stub (.callMethod pb directory methodName requestId caller) = some stub') :
    stub'.serviceName = stub.serviceName := by
  obtain ⟨⟨result, t⟩, hrun, rfl⟩ := Option.map_eq_some_iff.mp h
  refine (callEnds_of_exec hrun).invariant (P := fun t => t.serviceName = stub.serviceName)
    (fun _ _ h => h) (fun _ _ => prepares_serviceName) ?_
  intro stub₁ reply stub₂ hprepare hsend
  have hname := prepares_serviceName (prepares_of_exec hprepare)
  obtain ⟨c, rfl, -⟩ := sendRpcRequest_kept hsend
  exact hname

end Selection

/-- What holds all along: the fleet keeps its rules, and the stub is on target. -/
structure Sound (serviceName : Text) (s : System zk β) : Prop where
  fleet : Kept s.fleet
  stub : Discovering s.stub
  target : OnTarget s.stub
  name : s.stub.serviceName = serviceName

theorem step_sound {serviceName : Text} (s : System zk β) (l : Act ν) (t : System zk β)
    (sound : Sound serviceName s) (hallowed : Allowed l) (h : step what balancer s l = some t) :
    Sound serviceName t := by
  cases l with
  | fleet event =>
    obtain ⟨fleet, hstep, rfl⟩ := Option.map_eq_some_iff.mp h
    exact ⟨step_kept _ _ _ sound.fleet hallowed hstep, sound.stub, sound.target, sound.name⟩
  | call i pb methodName requestId caller =>
    obtain ⟨stub, hstep, rfl⟩ := Option.map_eq_some_iff.mp h
    refine ⟨sound.fleet, step_discovering _ _ _ sound.stub hstep, ?_, ?_⟩
    · have haimed : Aimed s.stub (.callMethod pb (s.directory what balancer i) methodName requestId
          caller) := trivial
      exact (step_onTarget_iff sound.stub sound.target _).mpr haimed stub hstep
    · exact (call_serviceName hstep).trans sound.name

theorem Sound.reachesLiving {serviceName : Text} (sound : Sound serviceName s)
    (honors : Honors balancer.select) (hslash : 47 ∉ serviceName) (hnul : 0 ∉ serviceName) :
    ReachesLiving what balancer s := by
  intro i stub client hprepare hclient hstate
  obtain ⟨inst, stub₁, hsel⟩ := prepare_selected sound.stub.mode (prepares_of_exec hprepare)
  have hpeer := faithful_of_onTarget sound.stub sound.target _ inst stub₁ stub client hsel
    hprepare hclient hstate
  obtain ⟨instances, hfound, hmem, hhealthy⟩ := selected_discovered honors hsel
  rw [sound.name] at hfound ⊢
  exact ⟨inst, sound.fleet.living_of_discovered hslash hnul hfound inst hmem, hhealthy, hpeer⟩

theorem run_sound {stub : RpcClientStub β} (hmode : stub.useServiceDiscovery = true)
    (hnew : stub.connected = false) (hid : stub.currentInstanceId = []) {acts : List (Act ν)}
    (hallowed : ∀ l ∈ acts, Allowed l)
    (hrun : run (step what balancer) ⟨start zk, stub⟩ acts = some s) :
    Sound stub.serviceName s := by
  have hstart : Sound stub.serviceName (⟨start zk, stub⟩ : System zk β) := by
    refine ⟨start_kept zk, ⟨hmode, .inl hid⟩, ?_, rfl⟩
    intro client hc
    rw [hnew] at hc
    cases hc
  exact run_invariant step_sound hstart
    (guarded_of_invariant step_sound (fun _ _ _ hl => hl) hstart hallowed) hrun

/-- Whatever registrations, deletions, closed and lost sessions come between the calls,
each call of the run that has a connection writes to a healthy instance that an open
session has registered for its service. -/
theorem calls_reach_living (honors : Honors balancer.select) {stub : RpcClientStub β}
    (hmode : stub.useServiceDiscovery = true) (hnew : stub.connected = false)
    (hid : stub.currentInstanceId = []) (hslash : 47 ∉ stub.serviceName)
    (hnul : 0 ∉ stub.serviceName) {acts : List (Act ν)} (hallowed : ∀ l ∈ acts, Allowed l)
    (hrun : run (step what balancer) ⟨start zk, stub⟩ acts = some s) :
    ReachesLiving what balancer s :=
  (run_sound hmode hnew hid hallowed hrun).reachesLiving honors hslash hnul

def roundRobin : LoadBalancer RoundRobinLoadBalancer where
  select := RoundRobinLoadBalancer.select
  getName := text "RoundRobin"
  updateStats _ _ lb := lb

/-- Two instances are registered, a call goes to the first, and that is lost. -/
def lostAfterCall : List (Act Unit) :=
  [.fleet (1, .watcher .connected), .fleet (2, .watcher .connected),
    .fleet (1, .register ⟨[115], [104], 80, 1, true, 0, []⟩),
    .fleet (2, .register ⟨[115], [103], 81, 1, true, 0, []⟩),
    .call 2 runtime [109] 7 emptyCaller, .fleet (1, .timeout)]

def callingStub : RpcClientStub RoundRobinLoadBalancer :=
  ⟨[115], [], 0, false, true, [], none, [some refusedClient, some refusedClient], ⟨0⟩, none⟩

/-- The next call changes to the second. -/
theorem calls_reach_living_lost : ∃ s : System .standalone RoundRobinLoadBalancer,
    run (step (fun _ => []) roundRobin) ⟨start .standalone, callingStub⟩ lostAfterCall = some s ∧
    s.stub.peer = some ([104], 80) ∧
    (exec (prepare (s.directory (fun _ => []) roundRobin 2)) s.stub).map (·.2.peer) =
      some (some ([103], 81)) ∧
    ReachesLiving (fun _ => []) roundRobin s := by
  have h : (run (step (fun _ => []) roundRobin) ⟨start .standalone, callingStub⟩
      lostAfterCall).map (fun s => (s.stub.peer,
        (exec (prepare (s.directory (fun _ => []) roundRobin 2)) s.stub).map (·.2.peer))) =
        some (some ([104], 80), some (some ([103], 81))) := by
    decide +kernel
  obtain ⟨s, hrun, hview⟩ := Option.map_eq_some_iff.mp h
  obtain ⟨hbefore, hafter⟩ := Prod.mk.inj hview
  have hallowed : ∀ l ∈ lostAfterCall, Allowed l := by
    simp [lostAfterCall, Allowed, Proper]
  exact ⟨s, hrun, hbefore, hafter,
    calls_reach_living roundRobin_honors rfl rfl rfl (by decide) (by decide) hallowed hrun⟩

end Mprpc.DiscoveredCalls
