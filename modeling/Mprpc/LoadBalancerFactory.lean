import Mprpc.DiscoveredCalls
import Mprpc.Library.NameTable

namespace Mprpc

open Transport Library BalancerContract DiscoveredCalls

/-- A balancer as a creator makes it, with the state it starts in. -/
structure MadeBalancer where
  State : Type
  balancer : LoadBalancer State
  state : State

abbrev Config := Text → Option Text

/-- A creator may throw, and the pointer it returns may be null. -/
abbrev LoadBalancerCreator := Config → Except Text (Option MadeBalancer)

structure LoadBalancerFactory where
  creators : NameTable Text LoadBalancerCreator

namespace LoadBalancerFactory

def registerCreator (name : Text) (creator : LoadBalancerCreator) (factory : LoadBalancerFactory) :
    Bool × LoadBalancerFactory :=
  let (registered, creators) := factory.creators.add name creator
  (registered, { factory with creators := creators })

/-- A name that is not registered stands for round robin. -/
def create (name : Text) (config : Config) (factory : LoadBalancerFactory) :
    Except Text (Option MadeBalancer) :=
  match factory.creators.find name with
  | some creator => creator config
  | none =>
    match factory.creators.find (text "round_robin") with
    | some creator => creator config
    | none => .ok none

def getRegisteredNames (factory : LoadBalancerFactory) : List Text := factory.creators.names

def isSupported (name : Text) (factory : LoadBalancerFactory) : Bool :=
  (factory.creators.find name).isSome

def getSupportedLoadBalancers : List Text :=
  [text "round_robin", text "random", text "weighted_round_robin", text "weighted_random",
    text "least_connection", text "consistent_hash"]

def makeRoundRobin : LoadBalancerCreator := fun _ =>
  .ok (some ⟨RoundRobinLoadBalancer, roundRobin, {}⟩)

def weightedRoundRobin : LoadBalancer WeightedRoundRobinLoadBalancer where
  select := WeightedRoundRobinLoadBalancer.select
  getName := text "WeightedRoundRobin"
  updateStats _ _ lb := lb

def makeWeightedRoundRobin : LoadBalancerCreator := fun _ =>
  .ok (some ⟨WeightedRoundRobinLoadBalancer, weightedRoundRobin, {}⟩)

def leastConnection : LoadBalancer LeastConnectionLoadBalancer where
  select := LeastConnectionLoadBalancer.select
  getName := LeastConnectionLoadBalancer.getName
  updateStats := LeastConnectionLoadBalancer.updateStats

def makeLeastConnection : LoadBalancerCreator := fun _ =>
  .ok (some ⟨LeastConnectionLoadBalancer, leastConnection, {}⟩)

def consistentHash : LoadBalancer ConsistentHashLoadBalancer where
  select := ConsistentHashLoadBalancer.select
  getName := text "ConsistentHash"
  updateStats _ _ lb := lb

/-- A number that `stoi` refuses leaves the default. -/
def virtualNodes (config : Config) : Int :=
  match config (text "virtual_nodes") with
  | none => 100
  | some value =>
    match Decimal.stoi value with
    | .ok n => n
    | .error _ => 100

def makeConsistentHash : LoadBalancerCreator := fun config =>
  .ok (some ⟨ConsistentHashLoadBalancer, consistentHash, { virtualNodes := virtualNodes config }⟩)

/-- What `initializeBuiltInLoadBalancers` registers, in its order. -/
def builtIns : List (Text × LoadBalancerCreator) :=
  [(text "round_robin", makeRoundRobin), (text "RoundRobin", makeRoundRobin),
    (text "weighted_round_robin", makeWeightedRoundRobin),
    (text "WeightedRoundRobin", makeWeightedRoundRobin),
    (text "least_connection", makeLeastConnection), (text "LeastConnection", makeLeastConnection),
    (text "consistent_hash", makeConsistentHash), (text "ConsistentHash", makeConsistentHash)]

def registerAll (creators : List (Text × LoadBalancerCreator)) (factory : LoadBalancerFactory) :
    LoadBalancerFactory :=
  creators.foldl (fun factory e => (factory.registerCreator e.1 e.2).2) factory

def initializeBuiltInLoadBalancers : LoadBalancerFactory := registerAll builtIns ⟨.empty⟩

/-- The one factory of a program, after the registrations of the program. -/
def getInstance (registered : List (Text × LoadBalancerCreator)) : LoadBalancerFactory :=
  registerAll registered initializeBuiltInLoadBalancers

theorem creators_registerAll (creators : List (Text × LoadBalancerCreator))
    (factory : LoadBalancerFactory) :
    (factory.registerAll creators).creators =
      creators.foldl (fun t e => (t.add e.1 e.2).2) factory.creators := by
  induction creators generalizing factory with
  | nil => rfl
  | cons e creators ih => exact ih _

/-- The first registration of a name counts, and those of the program come after the built-in
ones. -/
theorem find_getInstance (registered : List (Text × LoadBalancerCreator)) (name : Text) :
    (getInstance registered).creators.find name =
      ((builtIns ++ registered).find? fun e => e.1 = name).map Prod.snd := by
  rw [getInstance, creators_registerAll, NameTable.find_addAll, initializeBuiltInLoadBalancers,
    creators_registerAll, NameTable.find_addAll, NameTable.find_empty, Option.none_or,
    List.find?_append, Option.map_or]

/-- What the program gets under a name. -/
theorem create_getInstance (registered : List (Text × LoadBalancerCreator)) (name : Text)
    (config : Config) :
    (getInstance registered).create name config =
      ((((builtIns ++ registered).find? fun e => e.1 = name).map Prod.snd).getD
        makeRoundRobin) config := by
  have hdefault : (getInstance registered).creators.find (text "round_robin") =
      some makeRoundRobin := by
    rw [find_getInstance]
    rfl
  rw [create, hdefault, find_getInstance]
  cases ((builtIns ++ registered).find? fun e => e.1 = name).map Prod.snd with
  | none => rfl
  | some creator => rfl

theorem find_builtIns : ∀ e ∈ builtIns, builtIns.find? (fun e' => e'.1 = e.1) = some e := by
  intro e he
  simp only [builtIns, List.mem_cons, List.not_mem_nil, or_false] at he
  obtain rfl | rfl | rfl | rfl | rfl | rfl | rfl | rfl := he <;> rfl

/-- The program cannot register anything in the place of a built-in balancer. -/
theorem create_builtIn (registered : List (Text × LoadBalancerCreator))
    {e : Text × LoadBalancerCreator} (he : e ∈ builtIns) (config : Config) :
    (getInstance registered).create e.1 config = e.2 config := by
  rw [create_getInstance, List.find?_append, find_builtIns e he]
  rfl

theorem create_unsupported (registered : List (Text × LoadBalancerCreator)) {name : Text}
    (h : (getInstance registered).isSupported name = false) (config : Config) :
    (getInstance registered).create name config = makeRoundRobin config := by
  rw [isSupported, find_getInstance, Option.isSome_eq_false_iff, Option.isNone_iff_eq_none] at h
  rw [create_getInstance, h]
  rfl

example : getSupportedLoadBalancers.filter (fun name => !(getInstance []).isSupported name) =
    [text "random", text "weighted_random"] := by decide

/-- What a creator makes keeps to the contract of the balancers, whatever the configuration. -/
def Keeps (creator : LoadBalancerCreator) : Prop :=
  ∀ config, ∃ made, creator config = .ok (some made) ∧ Honors made.balancer.select

theorem consistentHash_honors : Honors consistentHash.select where
  throws_iff instances lb := (selectByKey_honors lb.lastKey).throws_iff instances lb
  unchanged instances lb := (selectByKey_honors lb.lastKey).unchanged instances lb
  returns instances lb := (selectByKey_honors lb.lastKey).returns instances lb

theorem makeRoundRobin_keeps : Keeps makeRoundRobin := fun _ => ⟨_, rfl, roundRobin_honors⟩

theorem builtIns_keep : ∀ e ∈ builtIns, Keeps e.2 := by
  have hweighted : Keeps makeWeightedRoundRobin := fun _ => ⟨_, rfl, weightedRoundRobin_honors⟩
  have hleast : Keeps makeLeastConnection := fun _ => ⟨_, rfl, leastConnection_honors⟩
  have hhash : Keeps makeConsistentHash := fun _ => ⟨_, rfl, consistentHash_honors⟩
  simp [builtIns, makeRoundRobin_keeps, hweighted, hleast, hhash]

theorem create_keeps {registered : List (Text × LoadBalancerCreator)}
    (hkeep : ∀ e ∈ registered, Keeps e.2) (name : Text) :
    Keeps fun config => (getInstance registered).create name config := by
  intro config
  simp only [create_getInstance]
  cases h : (builtIns ++ registered).find? fun e => e.1 = name with
  | none => exact makeRoundRobin_keeps config
  | some e =>
    obtain hmem | hmem := List.mem_append.mp (List.mem_of_find?_eq_some h)
    · exact builtIns_keep e hmem config
    · exact hkeep e hmem config

end LoadBalancerFactory

open LoadBalancerFactory Library.Transition ServiceDirectory CallTruth

namespace RpcClientStub

/-- The balancer that the constructor leaves in a stub. -/
def chosenBalancer (factory : LoadBalancerFactory) (loadBalancer : Option MadeBalancer) :
    Except Text (Option MadeBalancer) :=
  match loadBalancer with
  | some made => .ok (some made)
  | none => factory.create (text "RoundRobin") fun _ => none

/-- A stub as the constructor for service discovery leaves it. -/
def discovering (serviceName : Text) (made : MadeBalancer) (dials : List (Option TcpClient)) :
    RpcClientStub made.State where
  serviceName := serviceName
  host := []
  port := 0
  connected := false
  useServiceDiscovery := true
  currentInstanceId := []
  tcpClient := none
  dials := dials
  directory := made.state
  peer := none

theorem chosenBalancer_honors {registered : List (Text × LoadBalancerCreator)}
    (hkeep : ∀ e ∈ registered, Keeps e.2) {loadBalancer : Option MadeBalancer}
    (hgiven : loadBalancer = none ∨
      ∃ name config, (getInstance registered).create name config = .ok loadBalancer) :
    ∃ made, chosenBalancer (getInstance registered) loadBalancer = .ok (some made) ∧
      Honors made.balancer.select := by
  obtain rfl | ⟨name, config, hcreate⟩ := hgiven
  · exact create_keeps hkeep (text "RoundRobin") fun _ => none
  · obtain ⟨made, hmade, honors⟩ := create_keeps hkeep name config
    obtain rfl : some made = loadBalancer := Except.ok.inj (hmade.symm.trans hcreate)
    exact ⟨made, rfl, honors⟩

/-- With no balancer or one that the factory made, whatever else is registered there, a stub is
constructed, and its calls go to living instances. -/
theorem stubs_reach_living {zk : ZooKeeper} {ν : Type}
    {registered : List (Text × LoadBalancerCreator)} (hkeep : ∀ e ∈ registered, Keeps e.2)
    {loadBalancer : Option MadeBalancer}
    (hgiven : loadBalancer = none ∨
      ∃ name config, (getInstance registered).create name config = .ok loadBalancer)
    {serviceName : Text} (hslash : 47 ∉ serviceName) (hnul : 0 ∉ serviceName) :
    ∃ made, chosenBalancer (getInstance registered) loadBalancer = .ok (some made) ∧
      ∀ (what : Decimal.NumberError → Text) (dials : List (Option TcpClient))
        (acts : List (Act ν)) (s : System zk made.State), (∀ l ∈ acts, Allowed l) →
        run (step what made.balancer) ⟨start zk, discovering serviceName made dials⟩ acts =
          some s →
        ReachesLiving what made.balancer s := by
  obtain ⟨made, hmade, honors⟩ := chosenBalancer_honors hkeep hgiven
  refine ⟨made, hmade, ?_⟩
  intro what dials acts s hallowed hrun
  exact (run_sound rfl rfl rfl hallowed hrun).reachesLiving honors hslash hnul

/-- The name `random` is free, and `round_robin` is not. -/
def programCreators : List (Text × LoadBalancerCreator) :=
  [(text "random", makeLeastConnection), (text "round_robin", makeConsistentHash)]

def madeLeast : MadeBalancer := ⟨LeastConnectionLoadBalancer, leastConnection, {}⟩

theorem stubs_reach_living_least : ∃ s : System .standalone LeastConnectionLoadBalancer,
    run (step (fun _ => []) leastConnection)
      ⟨start .standalone, discovering [115] madeLeast [some refusedClient, some refusedClient]⟩
      lostAfterCall = some s ∧
    s.stub.peer = some ([104], 80) ∧ ReachesLiving (fun _ => []) leastConnection s := by
  have h : (run (step (fun _ => []) leastConnection)
      ⟨start .standalone, discovering [115] madeLeast [some refusedClient, some refusedClient]⟩
      lostAfterCall).map (fun s => s.stub.peer) = some (some ([104], 80)) := by
    decide +kernel
  obtain ⟨s, hrun, hpeer⟩ := Option.map_eq_some_iff.mp h
  have hkeep : ∀ e ∈ programCreators, Keeps e.2 := by
    have hleast := builtIns_keep (text "least_connection", makeLeastConnection)
      (by simp [builtIns])
    have hhash := builtIns_keep (text "consistent_hash", makeConsistentHash) (by simp [builtIns])
    simp [programCreators, hleast, hhash]
  have hgiven : (getInstance programCreators).create (text "random") (fun _ => none) =
      .ok (some madeLeast) := rfl
  obtain ⟨made, hmade, hreach⟩ := @stubs_reach_living .standalone Unit programCreators hkeep _
    (.inr ⟨_, _, hgiven⟩) [115] (by decide) (by decide)
  obtain rfl : madeLeast = made := Option.some.inj (Except.ok.inj hmade)
  have hallowed : ∀ l ∈ lostAfterCall, Allowed l := by
    simp [lostAfterCall, Allowed, Proper]
  exact ⟨s, hrun, hpeer, hreach _ _ _ s hallowed hrun⟩

end RpcClientStub

end Mprpc
