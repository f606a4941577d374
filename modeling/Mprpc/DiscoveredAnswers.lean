import Mprpc.DiscoveredCalls
import Mprpc.LocalCalls

namespace Mprpc.DiscoveredAnswers

open Transport RpcProtocolHelper RpcServer RpcClientStub StubSteps BalancerContract InstanceTarget
open ZooKeeperRegistry ServiceDirectory DiscoveredCalls ServerAnswers EnvelopeTrip LocalCalls
open Library.Transition

variable {zk : ZooKeeper} {β μ : Type}

/-- Where a call of a stub in discovery mode is; `asked` is the fleet it has selected its
instance from. -/
inductive Stage (zk : ZooKeeper)
  | idle
  | ready (asked : Fleet zk)
  | exchanging (asked : Fleet zk) (request : RpcRequest)

/-- A response that a call has come back with, and the address that it was asked from. -/
structure Answer (zk : ZooKeeper) where
  asked : Fleet zk
  address : Text × UInt16
  request : RpcRequest
  response : RpcResponse

/-- A fleet, a stub, and the connection that the stub has to a server. -/
structure World (zk : ZooKeeper) (β : Type) where
  fleet : Fleet zk
  stub : RpcClientStub β
  connection : Option Deployment
  stage : Stage zk
  answers : List (Answer zk)

/-- The parts of `callMethod`, and what goes on beside them. A server that accepts a
connection has a descriptor and an address for it. -/
inductive Act
  | fleet (event : Nat × Event)
  | prepare (sockfd : Int) (peerAddr : Text)
  | begin (methodName : Text) (requestId : UInt64) (requestData : Bytes)
  | wire (act : Deployment.Act)
  | finish
  | disconnect

def initial (zk : ZooKeeper) (stub : RpcClientStub β) : World zk β :=
  ⟨ServiceDirectory.start zk, stub, none, .idle, []⟩

/-- The connection of a stub after `prepare`: a new one when there was an attempt to connect. -/
def joined (before after : RpcClientStub β) (sockfd : Int) (peerAddr : Text)
    (connection : Option Deployment) : Option Deployment :=
  match after.peer with
  | none => none
  | some _ =>
    if after.dials.length < before.dials.length then some (Deployment.initial sockfd peerAddr)
    else connection

/-- The state that the client is in after a call. -/
def noticed (state : ConnectionState) (stub : RpcClientStub β) : RpcClientStub β :=
  { stub with tcpClient := stub.tcpClient.map fun client => { client with state := state } }

def requestOf (stub : RpcClientStub β) (methodName : Text) (requestId : UInt64)
    (requestData : Bytes) : RpcRequest :=
  { requestId := requestId
    serviceName := stub.serviceName
    methodName := methodName
    requestData := requestData }

variable (servers : Text × UInt16 → RpcServer μ) (workers : Nat)
  (what : Decimal.NumberError → Text) (balancer : LoadBalancer β) (i : Nat)

/-- The registry and the balancer of the stub. -/
def World.directory (s : World zk β) : Directory β :=
  directoryOf what balancer (s.fleet.registry i) s.fleet.tree

/-- The connection goes on with the server at its address. -/
def onConnection (act : Deployment.Act) (s : World zk β) : Option (World zk β) :=
  match s.connection, s.stub.peer with
  | some d, some address =>
    (Deployment.step (servers address) workers d act).map fun d => { s with connection := some d }
  | _, _ => none

def prepareStep (sockfd : Int) (peerAddr : Text) (s : World zk β) : Option (World zk β) :=
  match exec (prepare (s.directory what balancer i)) s.stub with
  | none => none
  | some (ready, stub) =>
    let connection := joined s.stub stub sockfd peerAddr s.connection
    match ready with
    | .ok true => some { s with stub := stub, connection := connection, stage := .ready s.fleet }
    | _ => some { s with stub := stub, connection := connection }

/-- A call without a response ends in the `catch`. -/
def finishStep (asked : Fleet zk) (request : RpcRequest) (s : World zk β) : Option (World zk β) :=
  match s.connection, s.stub.peer with
  | some d, some address =>
    if d.session.phase = .idle then
      let stub := noticed d.session.state s.stub
      match lastReturned d with
      | none => some { s with stub := stub, stage := .idle }
      | some response =>
        (exec (cleanup (s.directory what balancer i)) stub).map fun p => { s with
          stub := p.2
          stage := .idle
          answers := s.answers ++ [⟨asked, address, request, response⟩] }
    else none
  | _, _ => none

def step (s : World zk β) : Act → Option (World zk β)
  | .fleet event => (ServiceDirectory.step s.fleet event).map fun fleet => { s with fleet := fleet }
  | .prepare sockfd peerAddr =>
    match s.stage with
    | .idle => prepareStep what balancer i sockfd peerAddr s
    | _ => none
  | .begin methodName requestId requestData =>
    match s.stage with
    | .ready asked =>
      let request := requestOf s.stub methodName requestId requestData
      (onConnection servers workers (.call request) s).map fun s =>
        { s with stage := .exchanging asked request }
    | _ => none
  | .wire act =>
    match act with
    | .call _ => none
    | act => onConnection servers workers act s
  | .finish =>
    match s.stage with
    | .exchanging asked request => finishStep what balancer i asked request s
    | _ => none
  | .disconnect =>
    match s.stage with
    | .idle => (exec disconnect s.stub).map fun p => { s with stub := p.2, connection := none }
    | _ => none

/-- Services are registered under proper names, and a request goes out when nothing of an
earlier call on its connection is under way. -/
def Allowed (s : World zk β) : Act → Prop
  | .fleet event => Proper event
  | .begin methodName requestId requestData =>
    ∀ d address, s.connection = some d → s.stub.peer = some address →
      Calm (servers address) d (.call (requestOf s.stub methodName requestId requestData))
  | _ => True

/-- A healthy instance of the service was registered at the address, by a session that was open. -/
def Reaches (serviceName : Text) (asked : Fleet zk) (address : Text × UInt16) : Prop :=
  ∃ inst, Living asked serviceName inst ∧ inst.isHealthy = true ∧ address = (inst.host, inst.port)

/-- The connection leads to the instance that is remembered, and is a settled one. -/
def Linked (stub : RpcClientStub β) (connection : Option Deployment) : Prop :=
  match connection with
  | none => stub.connected = false
  | some d => ∃ address, stub.peer = some address ∧ stub.currentInstanceId = idOf address ∧
      ∃ t, Settled (servers address) d t

/-- What a call that is under way has done so far. -/
def Started (serviceName : Text) (s : World zk β) : Prop :=
  match s.stage with
  | .idle => True
  | .ready asked => ∃ address, s.stub.peer = some address ∧ Reaches serviceName asked address
  | .exchanging asked request =>
    request.serviceName = serviceName ∧ ∃ d address, s.connection = some d ∧
      s.stub.peer = some address ∧ d.requests.getLast? = some request ∧
      Reaches serviceName asked address

structure Sound (serviceName : Text) (s : World zk β) : Prop where
  fleet : Kept s.fleet
  mode : s.stub.useServiceDiscovery = true
  name : s.stub.serviceName = serviceName
  linked : Linked servers s.stub s.connection
  started : Started serviceName s
  answered : ∀ e ∈ s.answers, e.response = localAnswer (servers e.address) e.request ∧
    e.request.serviceName = serviceName ∧ Reaches serviceName e.asked e.address

variable {servers} {workers} {what} {balancer} {i}
variable {serviceName : Text} {s t : World zk β}

section Prepare

variable {before after : RpcClientStub β} {sockfd : Int} {peerAddr : Text}
  {connection : Option Deployment}

theorem Linked.joined_eq (linked : Linked servers before connection) (d : β) :
    joined before { before with directory := d } sockfd peerAddr connection = connection := by
  rw [joined]
  dsimp only
  rw [if_neg (lt_irrefl _)]
  cases connection with
  | none => cases before.peer <;> rfl
  | some d =>
    obtain ⟨address, hpeer, -⟩ := linked
    rw [hpeer]

theorem Linked.stays (linked : Linked servers before connection) (d : β) :
    Linked servers { before with directory := d }
      (joined before { before with directory := d } sockfd peerAddr connection) := by
  rw [linked.joined_eq]
  exact linked

/-- Whatever a call starts with, its connection leads where it should, and one that has a
connection has it to a living instance. -/
theorem prepare_linked (sound : Sound servers serviceName s) (honors : Honors balancer.select)
    (hslash : 47 ∉ serviceName) (hnul : 0 ∉ serviceName) (sockfd : Int) (peerAddr : Text)
    {ready : Except Text Bool} (h : Prepares (s.directory what balancer i) s.stub ready after) :
    Linked servers after (joined s.stub after sockfd peerAddr s.connection) ∧
      (ready = .ok true →
        ∃ address, after.peer = some address ∧ Reaches serviceName s.fleet address) := by
  have hliving : ∀ {inst stub'}, exec (selectServiceInstance (s.directory what balancer i)) s.stub =
      some (.ok inst, stub') → Reaches serviceName s.fleet (inst.host, inst.port) := by
    intro inst stub' hsel
    obtain ⟨instances, hfound, hmem, hhealthy⟩ := selected_discovered honors hsel
    rw [sound.name] at hfound
    exact ⟨inst, sound.fleet.living_of_discovered hslash hnul hfound inst hmem, hhealthy, rfl⟩
  cases h with
  | throws _ hsel =>
    exact ⟨sound.linked.stays _, fun herror => by cases herror⟩
  | @reuses inst d loadBalancer _ hsel hconnected hid _ =>
    obtain ⟨d', hcounted⟩ := counted_kept loadBalancer true { s.stub with directory := d }
    rw [hcounted]
    refine ⟨sound.linked.stays d', fun _ => ?_⟩
    have hlinked := sound.linked
    cases hconnection : s.connection with
    | none =>
      rw [hconnection, Linked, hconnected] at hlinked
      cases hlinked
    | some connection =>
      rw [hconnection] at hlinked
      obtain ⟨address, hpeer, hnamed, -⟩ := hlinked
      have hsame : address = (inst.host, inst.port) := by
        apply idOf_injective
        rw [← hnamed, hid, getId_eq]
      exact ⟨address, hpeer, hsame ▸ hliving hsel⟩
  | switchFails => exact ⟨rfl, fun hfalse => by cases hfalse⟩
  | @switches inst d client dials loadBalancer _ hsel _ hdials _ =>
    obtain ⟨d', hcounted⟩ := counted_kept loadBalancer true
      { opened (aimed { s.stub with directory := d } inst) client dials with
        currentInstanceId := inst.getId }
    have hshorter : dials.length < s.stub.dials.length := by
      rw [hdials]
      exact Nat.lt_succ_self _
    rw [hcounted]
    refine ⟨?_, fun _ => ⟨_, rfl, hliving hsel⟩⟩
    change Linked servers _ (if dials.length < s.stub.dials.length then
      some (Deployment.initial sockfd peerAddr) else s.connection)
    rw [if_pos hshorter]
    exact ⟨_, rfl, rfl, _, initial_settled _ _ _⟩
  | connected hdirect | connectFails hdirect | connects hdirect =>
    rw [sound.mode] at hdirect
    cases hdirect

theorem prepares_kept {directory : Directory β} {ready : Except Text Bool}
    (hmode : before.useServiceDiscovery = true) (h : Prepares directory before ready after) :
    after.useServiceDiscovery = true ∧ after.serviceName = before.serviceName := by
  refine ⟨?_, prepares_serviceName h⟩
  refine h.invariant (P := fun s => s.useServiceDiscovery = true) (fun _ _ h => h) hmode
    (fun _ _ _ => hmode) (fun _ _ _ _ => hmode) ?_
  intro hdirect
  rw [hmode] at hdirect
  cases hdirect

theorem prepareStep_sound (sound : Sound servers serviceName s) (honors : Honors balancer.select)
    (hslash : 47 ∉ serviceName) (hnul : 0 ∉ serviceName) (hidle : s.stage = .idle)
    (h : prepareStep what balancer i sockfd peerAddr s = some t) : Sound servers serviceName t := by
  unfold prepareStep at h
  split at h
  · cases h
  rename_i ready after hprepare
  have hprepares := prepares_of_exec hprepare
  obtain ⟨hmode, hname⟩ := prepares_kept sound.mode hprepares
  obtain ⟨hlinked, hready⟩ := prepare_linked sound honors hslash hnul sockfd peerAddr hprepares
  split at h
  · cases h
    exact ⟨sound.fleet, hmode, hname.trans sound.name, hlinked, hready rfl, sound.answered⟩
  · cases h
    refine ⟨sound.fleet, hmode, hname.trans sound.name, hlinked, ?_, sound.answered⟩
    rw [Started, hidle]
    trivial

end Prepare

section Exchange

variable {d : Deployment} {address : Text × UInt16} {act : Deployment.Act}

theorem onConnection_some (h : onConnection servers workers act s = some t) :
    ∃ d address d', s.connection = some d ∧ s.stub.peer = some address ∧
      Deployment.step (servers address) workers d act = some d' ∧
      t = { s with connection := some d' } := by
  unfold onConnection at h
  split at h
  · rename_i d address hconnection hpeer
    obtain ⟨d', hstep, rfl⟩ := Option.map_eq_some_iff.mp h
    exact ⟨d, address, d', hconnection, hpeer, hstep, rfl⟩
  · cases h

theorem Sound.settled (sound : Sound servers serviceName s) (hconnection : s.connection = some d)
    (hpeer : s.stub.peer = some address) :
    s.stub.currentInstanceId = idOf address ∧ ∃ u, Settled (servers address) d u := by
  have hlinked := sound.linked
  rw [hconnection] at hlinked
  obtain ⟨address', hpeer', hnamed, hsettled⟩ := hlinked
  obtain rfl : address' = address := Option.some.inj (hpeer'.symm.trans hpeer)
  exact ⟨hnamed, hsettled⟩

theorem Sound.linked_step (sound : Sound servers serviceName s)
    (hsafe : ∀ address, ErrorsSerialize (servers address)) (hconnection : s.connection = some d)
    (hpeer : s.stub.peer = some address) (hcalm : Calm (servers address) d act) {d' : Deployment}
    (hstep : Deployment.step (servers address) workers d act = some d') :
    Linked servers s.stub (some d') := by
  obtain ⟨hnamed, u, settled⟩ := sound.settled hconnection hpeer
  exact ⟨address, hpeer, hnamed, settled.step (hsafe address) hcalm hstep⟩

theorem wire_sound (sound : Sound servers serviceName s)
    (hsafe : ∀ address, ErrorsSerialize (servers address)) (hact : ∀ request, act ≠ .call request)
    (h : onConnection servers workers act s = some t) : Sound servers serviceName t := by
  obtain ⟨d, address, d', hconnection, hpeer, hstep, rfl⟩ := onConnection_some h
  have hcalm : Calm (servers address) d act := by
    cases act with
    | call request => exact absurd rfl (hact request)
    | _ => trivial
  refine ⟨sound.fleet, sound.mode, sound.name,
    sound.linked_step hsafe hconnection hpeer hcalm hstep,
    ?_, sound.answered⟩
  have hstarted := sound.started
  unfold Started at hstarted ⊢
  cases hstage : s.stage with
  | idle => trivial
  | ready asked =>
    rw [hstage] at hstarted
    exact hstarted
  | exchanging asked request =>
    rw [hstage] at hstarted
    obtain ⟨hname, d₁, address₁, hconnection₁, hpeer₁, hlast, hreaches⟩ := hstarted
    obtain rfl : d = d₁ := Option.some.inj (hconnection.symm.trans hconnection₁)
    refine ⟨hname, d', address₁, rfl, hpeer₁, ?_, hreaches⟩
    rw [(requests_kept hact hstep).1]
    exact hlast

theorem begin_sound (sound : Sound servers serviceName s)
    (hsafe : ∀ address, ErrorsSerialize (servers address)) {asked : Fleet zk}
    (hstage : s.stage = .ready asked) {methodName : Text} {requestId : UInt64} {requestData : Bytes}
    (hcalm : Allowed servers s (.begin methodName requestId requestData))
    (h : onConnection servers workers
      (.call (requestOf s.stub methodName requestId requestData)) s =
      some t) :
    Sound servers serviceName
      { t with
        stage := .exchanging asked (requestOf s.stub methodName requestId requestData) } := by
  obtain ⟨d, address, d', hconnection, hpeer, hstep, rfl⟩ := onConnection_some h
  refine ⟨sound.fleet, sound.mode, sound.name, sound.linked_step hsafe hconnection hpeer
    (hcalm d address hconnection hpeer) hstep, ?_, sound.answered⟩
  have hstarted := sound.started
  rw [Started, hstage] at hstarted
  obtain ⟨address₁, hpeer₁, hreaches⟩ := hstarted
  obtain ⟨session, -, rfl⟩ := Option.map_eq_some_iff.mp hstep
  exact ⟨sound.name, _, address₁, rfl, hpeer₁, List.getLast?_concat, hreaches⟩

theorem finishStep_sound (sound : Sound servers serviceName s)
    (hproto : ∀ address, Proto3 (servers address).protobuf)
    (hthrows : ∀ address, ThrowsText (servers address)) {asked : Fleet zk} {request : RpcRequest}
    (hstage : s.stage = .exchanging asked request)
    (h : finishStep what balancer i asked request s = some t) : Sound servers serviceName t := by
  have hstarted := sound.started
  rw [Started, hstage] at hstarted
  obtain ⟨hname, d₁, address₁, hconnection₁, hpeer₁, hlast, hreaches⟩ := hstarted
  have hlinked : ∀ state, Linked servers (noticed state s.stub) s.connection := by
    intro state
    have hlinked := sound.linked
    rw [hconnection₁] at hlinked ⊢
    exact hlinked
  unfold finishStep at h
  split at h
  · rename_i d address hconnection hpeer
    obtain rfl : d = d₁ := Option.some.inj (hconnection.symm.trans hconnection₁)
    obtain rfl : address = address₁ := Option.some.inj (hpeer.symm.trans hpeer₁)
    obtain ⟨-, u, settled⟩ := sound.settled hconnection hpeer
    split at h
    · dsimp only at h
      split at h
      · cases h
        exact ⟨sound.fleet, sound.mode, sound.name, hlinked _, trivial, sound.answered⟩
      · rename_i response hreturned
        rw [exec_cleanup, Option.map_some] at h
        obtain ⟨b, hcleaned⟩ := cleaned_kept (s.directory what balancer i)
          (noticed d.session.state s.stub)
        rw [hcleaned] at h
        cases h
        refine ⟨sound.fleet, sound.mode, sound.name, hlinked d.session.state, trivial, ?_⟩
        intro e he
        obtain he | he := List.mem_append.mp he
        · exact sound.answered e he
        · obtain rfl := List.mem_singleton.mp he
          exact ⟨settled.lastReturned_local (hproto address) (hthrows address) hlast hreturned,
            hname,
            hreaches⟩
    · cases h
  · cases h

end Exchange

theorem step_sound (hproto : ∀ address, Proto3 (servers address).protobuf)
    (hsafe : ∀ address, ErrorsSerialize (servers address))
    (hthrows : ∀ address, ThrowsText (servers address)) (honors : Honors balancer.select)
    (hslash : 47 ∉ serviceName) (hnul : 0 ∉ serviceName) (s : World zk β) (act : Act)
    (t : World zk β) (sound : Sound servers serviceName s) (hallowed : Allowed servers s act)
    (h : step servers workers what balancer i s act = some t) : Sound servers serviceName t := by
  cases act with
  | fleet event =>
    obtain ⟨fleet, hstep, rfl⟩ := Option.map_eq_some_iff.mp h
    exact ⟨step_kept _ _ _ sound.fleet hallowed hstep, sound.mode, sound.name, sound.linked,
      sound.started, sound.answered⟩
  | prepare sockfd peerAddr =>
    simp only [step] at h
    split at h
    · rename_i hidle
      exact prepareStep_sound sound honors hslash hnul hidle h
    · cases h
  | begin methodName requestId requestData =>
    simp only [step] at h
    split at h
    · rename_i asked hready
      obtain ⟨u, hcall, rfl⟩ := Option.map_eq_some_iff.mp h
      exact begin_sound sound hsafe hready hallowed hcall
    · cases h
  | wire act =>
    simp only [step] at h
    split at h
    · cases h
    · rename_i hact
      exact wire_sound sound hsafe hact h
  | finish =>
    simp only [step] at h
    split at h
    · rename_i asked request hstage
      exact finishStep_sound sound hproto hthrows hstage h
    · cases h
  | disconnect =>
    simp only [step] at h
    split at h
    · rename_i hidle
      rw [exec_disconnect] at h
      cases h
      refine ⟨sound.fleet, sound.mode, sound.name, rfl, ?_, sound.answered⟩
      rw [Started, hidle]
      trivial
    · cases h

theorem initial_sound {stub : RpcClientStub β} (hmode : stub.useServiceDiscovery = true)
    (hnew : stub.connected = false) : Sound servers stub.serviceName (initial zk stub) := by
  refine ⟨start_kept zk, hmode, rfl, hnew, trivial, ?_⟩
  intro e he
  cases he

theorem guarded_of_begun {acts : List Act}
    (h : ∀ act ∈ acts, (∀ event, act = .fleet event → Proper event) ∧
      ∀ methodName requestId requestData, act ≠ .begin methodName requestId requestData) :
    Guarded (step servers workers what balancer i) (Allowed servers) s acts := by
  refine guarded_of_invariant (P := fun _ => True) (fun _ _ _ _ _ _ => trivial) ?_ trivial h
  intro s act _ hact
  cases act with
  | fleet event => exact hact.1 event rfl
  | begin methodName requestId requestData => exact absurd rfl (hact.2 _ _ _)
  | _ => trivial

/-- Servers, registries, network and stub together: whatever happens beside the calls of a stub in
discovery mode, the response that a call comes back with is the local answer of the server at the
address of a healthy instance of its service, which an open session had registered when the call
selected it. -/
theorem answers_local (hproto : ∀ address, Proto3 (servers address).protobuf)
    (hsafe : ∀ address, ErrorsSerialize (servers address))
    (hthrows : ∀ address, ThrowsText (servers address)) (honors : Honors balancer.select)
    {stub : RpcClientStub β} (hmode : stub.useServiceDiscovery = true)
    (hnew : stub.connected = false) (hslash : 47 ∉ stub.serviceName) (hnul : 0 ∉ stub.serviceName)
    {acts : List Act}
    (hallowed : Guarded (step servers workers what balancer i) (Allowed servers) (initial zk stub)
      acts)
    (hrun : run (step servers workers what balancer i) (initial zk stub) acts = some s) :
    ∀ e ∈ s.answers, e.response = localAnswer (servers e.address) e.request ∧
      e.request.serviceName = stub.serviceName ∧
      ∃ inst, Living e.asked stub.serviceName inst ∧ inst.isHealthy = true ∧
        e.address = (inst.host, inst.port) := by
  exact (run_invariant (step_sound hproto hsafe hthrows honors hslash hnul)
    (initial_sound hmode hnew) hallowed hrun).answered

section Run

def askedStub : RpcClientStub RoundRobinLoadBalancer :=
  ⟨text "A", [], 0, false, true, [], none, [some CallTruth.refusedClient], ⟨0⟩, none⟩

def servedRequest : RpcRequest := ⟨7, text "A", text "B", [1]⟩

/-- An instance is registered, and a call selects it. -/
def selected : List Act :=
  [.fleet (1, .watcher .connected), .fleet (2, .watcher .connected),
    .fleet (1, .register ⟨text "A", text "h", 80, 1, true, 0, []⟩), .prepare 9 (text "c")]

/-- The session of the instance ends before its server answers. -/
def answered : List Act :=
  [.wire (.send (.sent 15)), .fleet (1, .timeout),
    .wire (.read (.bytes [0, 0, 0, 11, 8, 7, 18, 1, 65, 26, 1, 66, 42, 1, 1])), .wire (.serve 0),
    .wire (.recv (.ready 4)), .wire (.recv (.ready 7)), .finish]

def oneServer : Text × UInt16 → RpcServer Bytes := fun _ => wireServer

def oneStep : World .standalone RoundRobinLoadBalancer → Act →
    Option (World .standalone RoundRobinLoadBalancer) :=
  step oneServer 4 (fun _ => []) DiscoveredCalls.roundRobin 2

/-- What a call finds on its connection. -/
def view (s : World .standalone RoundRobinLoadBalancer) :
    Option (ConnectionState × List Bytes × List Bytes) :=
  s.connection.map fun d => (d.connection.state, d.tasks, [s.stub.serviceName,
    d.connection.inputBuffer.readable, d.session.toServer, d.session.incoming])

theorem begin_allowed {s : World .standalone RoundRobinLoadBalancer}
    (hview : view s = some (.connected, [], [text "A", [], [], []])) :
    Allowed oneServer s (.begin (text "B") 7 [1]) := by
  intro d address hd _
  rw [view, hd, Option.map_some, Option.some_inj] at hview
  simp only [Prod.mk.injEq, List.cons.injEq, and_true] at hview
  obtain ⟨hopen, htasks, hname, hread, hstream, hincoming⟩ := hview
  rw [requestOf, hname]
  refine ⟨?_, ⟨"A", rfl⟩, ⟨"B", rfl⟩, fun _ => ⟨hopen, htasks, hread, hstream, hincoming⟩⟩
  intro payload hpayload
  cases hpayload
  decide

theorem answers_local_lost : ∃ s,
    run oneStep (initial .standalone askedStub) (selected ++ .begin (text "B") 7 [1] :: answered) =
      some s ∧
    s.answers.map (fun e => (e.address, e.request, e.response)) =
      [((text "h", 80), servedRequest, ⟨7, true, [], [1]⟩)] ∧
    ∀ e ∈ s.answers, e.response = localAnswer wireServer e.request ∧
      e.request.serviceName = text "A" ∧
      ∃ inst, Living e.asked (text "A") inst ∧ inst.isHealthy = true ∧
        e.address = (inst.host, inst.port) := by
  have h : (run oneStep (initial .standalone askedStub)
      (selected ++ .begin (text "B") 7 [1] :: answered)).map
        (fun s => s.answers.map fun e => (e.address, e.request, e.response)) =
      some [((text "h", 80), servedRequest, ⟨7, true, [], [1]⟩)] := by
    decide +kernel
  have hfirst : (run oneStep (initial .standalone askedStub) selected).bind view =
      some (.connected, [], [text "A", [], [], []]) := by
    decide +kernel
  obtain ⟨s, hrun, hanswers⟩ := Option.map_eq_some_iff.mp h
  obtain ⟨u, hu, hview⟩ := Option.bind_eq_some_iff.mp hfirst
  have hallowed : Guarded oneStep (Allowed oneServer) (initial .standalone askedStub)
      (selected ++ .begin (text "B") 7 [1] :: answered) := by
    refine guarded_append (guarded_of_begun ?_) hu ⟨begin_allowed hview, fun t _ =>
      guarded_of_begun ?_⟩
    · have hname : (47 : UInt8) ∉ text "A" ∧ 0 ∉ text "A" := by decide
      simp [selected, Proper, hname]
    · simp [answered, Proper]
  exact ⟨s, hrun, hanswers, answers_local (fun _ => wire_proto3)
    (fun _ => wireServer_errorsSerialize) (fun _ => wireServer_throwsText) roundRobin_honors rfl rfl
    (by decide) (by decide) hallowed hrun⟩

end Run

end Mprpc.DiscoveredAnswers
