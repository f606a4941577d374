import Mprpc.CallProgress
import Mprpc.DiscoveredAnswers

namespace Mprpc.DiscoveredProgress

open Transport RpcProtocolHelper RpcServer RpcClientStub BalancerContract ZooKeeperRegistry
open ServerAnswers EnvelopeTrip LocalCalls CallProgress DiscoveredAnswers Library.Transition
open StubSteps (counted_kept cleaned cleaned_kept opened aimed exec_select exec_prepare_discovery
  exec_cleanup)
open DiscoveredCalls (directoryOf)
open ServiceDirectory (Fleet)

variable {zk : ZooKeeper} {β μ : Type} {servers : Text × UInt16 → RpcServer μ} {workers : Nat}
  {what : Decimal.NumberError → Text} {balancer : LoadBalancer β} {i : Nat}
  {serviceName : Text} {s t : World zk β}

/-- Between two calls, with nothing under way on the connection, a healthy instance to be
discovered, and a number of attempts to connect that will be accepted. -/
structure Ready (servers : Text × UInt16 → RpcServer μ) (serviceName : Text) (i attempts : Nat)
    (s : World zk β) : Prop where
  sound : Sound servers serviceName s
  idle : s.stage = .idle
  rest : ∀ d, s.connection = some d → AtRest d
  healthy : ∃ instances,
    discoverService zk (s.fleet.registry i) serviceName s.fleet.tree = .ok instances ∧
      ∃ inst ∈ instances, inst.isHealthy
  dials : ∃ clients : List TcpClient, s.stub.dials = clients.map some ∧ attempts ≤ clients.length

section Prepare

variable {attempts : Nat}

theorem Ready.selects (what : Decimal.NumberError → Text)
    (ready : Ready servers serviceName i attempts s) (honors : Honors balancer.select) :
    ∃ inst d, exec (selectServiceInstance (s.directory what balancer i)) s.stub =
      some (.ok inst, { s.stub with directory := d }) := by
  obtain ⟨instances, hfound, hsome⟩ := ready.healthy
  have hnonempty : instances.isEmpty = false := by
    obtain ⟨inst, hmem, -⟩ := hsome
    rw [List.isEmpty_eq_false_iff]
    exact List.ne_nil_of_mem hmem
  obtain rfl := ready.sound.name
  rw [exec_select rfl]
  simp only [World.directory, directoryOf, hfound, hnonempty, Bool.false_eq_true, if_false]
  cases hselect : (balancer.select instances s.stub.directory).1 with
  | error e => exact absurd hsome ((honors.throws_iff _ _).mp ⟨e, hselect⟩)
  | ok inst => exact ⟨inst, _, rfl⟩

theorem Ready.prepares (what : Decimal.NumberError → Text)
    (ready : Ready servers serviceName i (attempts + 1) s) (honors : Honors balancer.select)
    (sockfd : Int) (peerAddr : Text) :
    ∃ after d, exec (prepare (s.directory what balancer i)) s.stub = some (.ok true, after) ∧
      joined s.stub after sockfd peerAddr s.connection = some d ∧ AtRest d ∧
      ∃ clients : List TcpClient, after.dials = clients.map some ∧ attempts ≤ clients.length := by
  obtain ⟨inst, d, hselect⟩ := ready.selects what honors
  obtain ⟨clients, hdials, hlength⟩ := ready.dials
  rw [exec_prepare_discovery ready.sound.mode, hselect, Option.bind_some]
  dsimp only
  split
  · cases clients with
    | nil => cases hlength
    | cons client clients =>
      rw [hdials, List.map_cons]
      obtain ⟨d', hcounted⟩ := counted_kept balancer true
        { opened (aimed { s.stub with directory := d } inst) client (clients.map some) with
          currentInstanceId := inst.getId }
      refine ⟨_, Deployment.initial sockfd peerAddr, congrArg some (congrArg _ hcounted), ?_,
        initial_atRest sockfd peerAddr, clients, rfl, Nat.le_of_succ_le_succ hlength⟩
      exact if_pos (by simp [opened, aimed, hdials])
  · rename_i hsame
    obtain ⟨d', hcounted⟩ := counted_kept balancer true { s.stub with directory := d }
    have hlinked := ready.sound.linked
    cases hconnection : s.connection with
    | none =>
      rw [hconnection, Linked] at hlinked
      simp [hlinked] at hsame
    | some connection =>
      refine ⟨_, connection, congrArg some (congrArg _ hcounted), ?_, ready.rest _ hconnection,
        clients, hdials, Nat.le_of_succ_le hlength⟩
      rw [hconnection] at hlinked
      exact hlinked.joined_eq d'

end Prepare

section Exchange

variable {d d' : Deployment} {address : Text × UInt16} {u : Session}

theorem callActs_shape (request : RpcRequest) (schedule : Schedule) :
    ∃ rest, callActs request schedule = .call request :: rest ∧
      ∀ act ∈ rest, ∀ request, act ≠ .call request := by
  refine ⟨_, rfl, ?_⟩
  rintro act hact request rfl
  simp at hact

theorem run_wire (workers : Nat) (what : Decimal.NumberError → Text) (balancer : LoadBalancer β)
    (i : Nat) {acts : List Deployment.Act} (hacts : ∀ act ∈ acts, ∀ request, act ≠ .call request)
    (hconnection : s.connection = some d) (hpeer : s.stub.peer = some address)
    (h : run (Deployment.step (servers address) workers) d acts = some d') :
    run (step servers workers what balancer i) s (acts.map .wire) =
      some { s with connection := some d' } := by
  induction acts generalizing s d with
  | nil =>
    cases h
    rw [← hconnection]
    rfl
  | cons act acts ih =>
    obtain ⟨d₁, hstep, hrun⟩ := run_cons_some.mp h
    have hwire : step servers workers what balancer i s (.wire act) =
        some { s with connection := some d₁ } := by
      cases act with
      | call request => exact absurd rfl (hacts _ List.mem_cons_self request)
      | _ => simp only [step, onConnection, hconnection, hpeer, hstep, Option.map_some]
    have hrest := ih (s := { s with connection := some d₁ })
      (fun act hact => hacts act (List.mem_cons_of_mem _ hact)) rfl hpeer hrun
    exact run_cons_some.mpr ⟨_, hwire, hrest⟩

theorem lastReturned_eq (hproto : Proto3 (servers address).protobuf)
    (hthrows : ThrowsText (servers address)) (settled : Settled (servers address) d u)
    {response : RpcResponse} (hcalls : d'.session.calls = d.requests.length + 1)
    (hreturned : d'.session.returned =
      d.session.returned ++ [(d.requests.length + 1, response)]) :
    lastReturned d' = some response := by
  have hearlier : (d.session.returned.find? fun p => p.1 = d.requests.length + 1) = none := by
    rw [List.find?_eq_none]
    rintro ⟨number, earlier⟩ hmem hnumber
    obtain ⟨request, hrequest, -⟩ := settled.returned_local hproto hthrows hmem
    have hlt := (List.getElem?_eq_some_iff.mp hrequest).1
    have heq : number = d.requests.length + 1 := by simpa using hnumber
    omega
  rw [lastReturned, hreturned, hcalls, List.find?_append, hearlier]
  simp

variable {methodName : Text} {requestId : UInt64} {requestData : Bytes} {asked : Fleet zk}
  {request : RpcRequest} {response : RpcResponse}

theorem prepare_step (servers : Text × UInt16 → RpcServer μ) (workers : Nat)
    {after : RpcClientStub β} {sockfd : Int} {peerAddr : Text}
    (hidle : s.stage = .idle)
    (hprepare : exec (prepare (s.directory what balancer i)) s.stub = some (.ok true, after))
    (hjoined : joined s.stub after sockfd peerAddr s.connection = some d) :
    step servers workers what balancer i s (.prepare sockfd peerAddr) =
      some { s with stub := after, connection := some d, stage := .ready s.fleet } := by
  simp only [step, hidle, prepareStep, hprepare, hjoined]

theorem begin_step (what : Decimal.NumberError → Text) (balancer : LoadBalancer β) (i : Nat)
    (hstage : s.stage = .ready asked) (hconnection : s.connection = some d)
    (hpeer : s.stub.peer = some address)
    (hcall : Deployment.step (servers address) workers d
      (.call (DiscoveredAnswers.requestOf s.stub methodName requestId requestData)) = some d') :
    step servers workers what balancer i s (.begin methodName requestId requestData) =
      some { s with
        connection := some d'
        stage := .exchanging asked
          (DiscoveredAnswers.requestOf s.stub methodName requestId requestData) } := by
  simp only [step, hstage, onConnection, hconnection, hpeer, hcall, Option.map_some]

theorem finish_step (servers : Text × UInt16 → RpcServer μ) (workers : Nat)
    (what : Decimal.NumberError → Text) (balancer : LoadBalancer β) (i : Nat)
    (hstage : s.stage = .exchanging asked request)
    (hconnection : s.connection = some d) (hpeer : s.stub.peer = some address)
    (hphase : d.session.phase = .idle) (hlast : lastReturned d = some response) :
    step servers workers what balancer i s .finish = some { s with
      stub := cleaned (s.directory what balancer i) (noticed d.session.state s.stub)
      stage := .idle
      answers := s.answers ++ [⟨asked, address, request, response⟩] } := by
  have hcleanup : exec (cleanup (s.directory what balancer i)) (noticed d.session.state s.stub) =
      some (.ok (), cleaned (s.directory what balancer i) (noticed d.session.state s.stub)) :=
    exec_cleanup _
  simp only [step, hstage, finishStep, hconnection, hpeer, hphase, if_true, hlast]
  exact congrArg (Option.map _) hcleanup

theorem wires_begun (rest : List Deployment.Act) :
    ∀ act ∈ rest.map Act.wire ++ [.finish], (∀ event, act = .fleet event →
      ServiceDirectory.Proper event) ∧
      ∀ methodName requestId requestData, act ≠ .begin methodName requestId requestData := by
  intro act hact
  obtain hact | hact := List.mem_append.mp hact
  · obtain ⟨_, -, rfl⟩ := List.mem_map.mp hact
    exact ⟨fun _ h => (by cases h), fun _ _ _ h => (by cases h)⟩
  · obtain rfl := List.mem_singleton.mp hact
    exact ⟨fun _ h => (by cases h), fun _ _ _ h => (by cases h)⟩

/-- A call that has its connection comes to its end and returns the answer of the server. -/
theorem exchange_returns (what : Decimal.NumberError → Text) (balancer : LoadBalancer β) (i : Nat)
    (methodName : Text) (requestId : UInt64) (requestData : Bytes)
    (hproto : ∀ address, Proto3 (servers address).protobuf)
    (hsafe : ∀ address, ErrorsSerialize (servers address))
    (hthrows : ∀ address, ThrowsText (servers address)) (hworkers : 0 < workers)
    (sound : Sound servers serviceName s)
    (hstage : s.stage = .ready asked) (hconnection : s.connection = some d) (atRest : AtRest d)
    (hservable : ∀ address, Servable (servers address)
      (DiscoveredAnswers.requestOf s.stub methodName requestId requestData)) :
    ∃ acts d' e, Guarded (step servers workers what balancer i) (Allowed servers) s acts ∧
      run (step servers workers what balancer i) s acts = some { s with
        connection := some d'
        stub := cleaned (s.directory what balancer i) (noticed d'.session.state s.stub)
        stage := .idle
        answers := s.answers ++ [e] } ∧ AtRest d' ∧
      e.request = DiscoveredAnswers.requestOf s.stub methodName requestId requestData ∧
      e.response = localAnswer (servers e.address) e.request := by
  have hstarted := sound.started
  rw [Started, hstage] at hstarted
  obtain ⟨address, hpeer, -⟩ := hstarted
  obtain ⟨-, u, settled⟩ := sound.settled hconnection hpeer
  obtain ⟨schedule, fits⟩ := (hservable address).exists_fits (hproto address) (hthrows address)
  obtain ⟨d', hrun, hcalm, atRest', hrequests, hreturned⟩ := call_completes (hproto address)
    (hsafe address) (hthrows address) hworkers atRest settled (hservable address) fits
  obtain ⟨u', settled'⟩ := settled.run (hsafe address) hcalm hrun
  have hlast := lastReturned_eq (hproto address) (hthrows address) settled
    (by rw [← settled'.refines.counted, hrequests, List.length_append, List.length_singleton])
    hreturned
  obtain ⟨rest, hacts, hsilent⟩ := callActs_shape
    (DiscoveredAnswers.requestOf s.stub methodName requestId requestData) schedule
  rw [hacts] at hrun
  obtain ⟨d₁, hcall, hrest⟩ := run_cons_some.mp hrun
  have hbegin := begin_step what balancer i hstage hconnection hpeer hcall
  have hwires := run_wire workers what balancer i
    (s := { s with
      connection := some d₁
      stage := .exchanging asked
        (DiscoveredAnswers.requestOf s.stub methodName requestId requestData) })
    hsilent rfl hpeer hrest
  have hfinish := finish_step servers workers what balancer i
    (s := { s with
      connection := some d'
      stage := .exchanging asked
        (DiscoveredAnswers.requestOf s.stub methodName requestId requestData) })
    rfl rfl hpeer atRest'.phase hlast
  refine ⟨.begin methodName requestId requestData :: (rest.map .wire ++ [.finish]), d', _, ?_,
    run_cons_some.mpr ⟨_, hbegin, run_append_some.mpr ⟨_, hwires, run_cons_some.mpr
      ⟨_, hfinish, rfl⟩⟩⟩, atRest', rfl, rfl⟩
  refine .cons ?_ hbegin (guarded_of_begun (wires_begun rest))
  intro d₂ address₂ hd₂ hpeer₂
  obtain rfl : d = d₂ := Option.some.inj (hconnection.symm.trans hd₂)
  obtain rfl : address = address₂ := Option.some.inj (hpeer.symm.trans hpeer₂)
  exact atRest.calm (hservable address)

/-- One call, from the selection of an instance to the answer of its server. -/
theorem call_returns (what : Decimal.NumberError → Text)
    (hproto : ∀ address, Proto3 (servers address).protobuf)
    (hsafe : ∀ address, ErrorsSerialize (servers address))
    (hthrows : ∀ address, ThrowsText (servers address)) (honors : Honors balancer.select)
    (hworkers : 0 < workers) (hslash : 47 ∉ serviceName) (hnul : 0 ∉ serviceName)
    {attempts : Nat} (ready : Ready servers serviceName i (attempts + 1) s)
    (hservable : ∀ address,
      Servable (servers address) ⟨requestId, serviceName, methodName, requestData⟩) :
    ∃ acts t e, Guarded (step servers workers what balancer i) (Allowed servers) s acts ∧
      run (step servers workers what balancer i) s acts = some t ∧
      Ready servers serviceName i attempts t ∧ t.answers = s.answers ++ [e] ∧
      e.request = ⟨requestId, serviceName, methodName, requestData⟩ ∧
      e.response = localAnswer (servers e.address) e.request := by
  obtain ⟨after, d, hprepare, hjoined, atRest, hdials⟩ := ready.prepares what honors 0 []
  have hfirst := prepare_step servers workers ready.idle hprepare hjoined
  have sound : Sound servers serviceName
      { s with stub := after, connection := some d, stage := .ready s.fleet } :=
    step_sound hproto hsafe hthrows honors hslash hnul s (.prepare 0 []) _ ready.sound trivial
      hfirst
  have hrequest : DiscoveredAnswers.requestOf after methodName requestId requestData =
      ⟨requestId, serviceName, methodName, requestData⟩ := by
    rw [DiscoveredAnswers.requestOf, show after.serviceName = serviceName from sound.name]
  obtain ⟨acts, d', e, hguarded, hrun, atRest', herequest, heresponse⟩ :=
    exchange_returns what balancer i methodName requestId requestData hproto hsafe hthrows hworkers
      sound rfl rfl atRest (by rw [hrequest]; exact hservable)
  have hall := run_cons_some.mpr ⟨_, hfirst, hrun⟩
  have hallowed : Guarded (step servers workers what balancer i) (Allowed servers) s
      (.prepare 0 [] :: acts) := .cons trivial hfirst hguarded
  refine ⟨_, _, e, hallowed, hall, ⟨?_, rfl, ?_, ready.healthy, ?_⟩, rfl, herequest.trans hrequest,
    heresponse⟩
  · exact run_invariant (step_sound hproto hsafe hthrows honors hslash hnul) ready.sound
      hallowed hall
  · intro d₂ hd₂
    cases hd₂
    exact atRest'
  · obtain ⟨b, hcleaned⟩ := cleaned_kept
      (World.directory what balancer i
        { s with stub := after, connection := some d, stage := .ready s.fleet })
      (noticed d'.session.state after)
    obtain ⟨clients, hdials, hlength⟩ := hdials
    have hkept := congrArg RpcClientStub.dials hcleaned
    exact ⟨clients, hkept.trans hdials, hlength⟩

end Exchange

section Calls

/-- A call is made of the name of a method, a number off the clock, and the bytes of its
argument. -/
abbrev Call := Text × UInt64 × Bytes

def Call.request (serviceName : Text) (call : Call) : RpcRequest :=
  ⟨call.2.1, serviceName, call.1, call.2.2⟩

theorem calls_return (hproto : ∀ address, Proto3 (servers address).protobuf)
    (hsafe : ∀ address, ErrorsSerialize (servers address))
    (hthrows : ∀ address, ThrowsText (servers address)) (honors : Honors balancer.select)
    (hworkers : 0 < workers) (hslash : 47 ∉ serviceName) (hnul : 0 ∉ serviceName)
    {calls : List Call}
    (hservable : ∀ call ∈ calls, ∀ address, Servable (servers address) (call.request serviceName))
    (ready : Ready servers serviceName i calls.length s) :
    ∃ acts t more, Guarded (step servers workers what balancer i) (Allowed servers) s acts ∧
      run (step servers workers what balancer i) s acts = some t ∧ t.answers = s.answers ++ more ∧
      more.map (·.request) = calls.map (Call.request serviceName) ∧
      ∀ e ∈ more, e.response = localAnswer (servers e.address) e.request := by
  induction calls generalizing s with
  | nil => exact ⟨[], s, [], trivial, rfl, (List.append_nil _).symm, rfl, fun e he => by cases he⟩
  | cons call calls ih =>
    obtain ⟨acts, u, e, hguarded, hrun, ready', hanswers, hrequest, hresponse⟩ :=
      call_returns what hproto hsafe hthrows honors hworkers hslash hnul ready
        (hservable call List.mem_cons_self)
    obtain ⟨acts', t, more, hguarded', hrun', hanswers', hrequests, hresponses⟩ :=
      ih (fun call' h => hservable call' (List.mem_cons_of_mem _ h)) ready'
    refine ⟨acts ++ acts', t, e :: more, guarded_append hguarded hrun hguarded',
      run_append_some.mpr ⟨u, hrun, hrun'⟩, ?_, ?_, ?_⟩
    · rw [hanswers', hanswers, List.append_assoc, List.singleton_append]
    · rw [List.map_cons, List.map_cons, hrequests, hrequest]
      rfl
    · intro e' he'
      obtain rfl | he' := List.mem_cons.mp he'
      · exact hresponse
      · exact hresponses e' he'

/-- From any state between two calls, as long as a healthy instance is to be discovered and its
connections are accepted, any calls that the servers can serve come to their end, each with the
local answer of a server. -/
theorem discovered_calls_complete (hproto : ∀ address, Proto3 (servers address).protobuf)
    (hsafe : ∀ address, ErrorsSerialize (servers address))
    (hthrows : ∀ address, ThrowsText (servers address)) (honors : Honors balancer.select)
    (hworkers : 0 < workers) {stub : RpcClientStub β} (hmode : stub.useServiceDiscovery = true)
    (hnew : stub.connected = false) (hslash : 47 ∉ stub.serviceName) (hnul : 0 ∉ stub.serviceName)
    {acts : List Act}
    (hallowed : Guarded (step servers workers what balancer i) (Allowed servers) (initial zk stub)
      acts)
    (hrun : run (step servers workers what balancer i) (initial zk stub) acts = some s)
    (hidle : s.stage = .idle) (hrest : ∀ d, s.connection = some d → AtRest d)
    {instances : List ServiceInstance}
    (hdiscovered : discoverService zk (s.fleet.registry i) stub.serviceName s.fleet.tree =
      .ok instances) (hhealthy : ∃ inst ∈ instances, inst.isHealthy) (calls : List Call)
    (hservable : ∀ call ∈ calls, ∀ address,
      Servable (servers address) (call.request stub.serviceName)) (clients : List TcpClient)
    (hdials : s.stub.dials = clients.map some) (hlength : calls.length ≤ clients.length) :
    ∃ more t answers, Guarded (step servers workers what balancer i) (Allowed servers) s more ∧
      run (step servers workers what balancer i) s more = some t ∧
      t.answers = s.answers ++ answers ∧
      answers.map (·.request) = calls.map (Call.request stub.serviceName) ∧
      ∀ e ∈ answers, e.response = localAnswer (servers e.address) e.request := by
  have sound : Sound servers stub.serviceName s :=
    run_invariant (step_sound hproto hsafe hthrows honors hslash hnul)
      (initial_sound hmode hnew) hallowed hrun
  exact calls_return hproto hsafe hthrows honors hworkers hslash hnul hservable
    ⟨sound, hidle, hrest, ⟨instances, hdiscovered, hhealthy⟩, clients, hdials, hlength⟩

end Calls

section Run

theorem run_fleet (s : World zk β) (events : List (Nat × ServiceDirectory.Event)) :
    run (step servers workers what balancer i) s (events.map .fleet) =
      (run ServiceDirectory.step s.fleet events).map fun fleet => { s with fleet := fleet } := by
  induction events generalizing s with
  | nil => rfl
  | cons event events ih =>
    rw [List.map_cons, run, run, step, Option.bind_map, Option.map_bind]
    apply congrArg
    funext fleet
    exact ih _

def registering : List (Nat × ServiceDirectory.Event) :=
  [(1, .watcher .connected), (2, .watcher .connected),
    (1, .register ⟨text "A", text "h", 80, 1, true, 0, []⟩)]

/-- Its second call can use the connection of the first, or have one of its own. -/
def twiceStub : RpcClientStub RoundRobinLoadBalancer :=
  { askedStub with dials := [some CallTruth.refusedClient, some CallTruth.refusedClient] }

theorem discovered_calls_complete_twice : ∃ s more t answers,
    run oneStep (initial .standalone twiceStub) (registering.map .fleet) = some s ∧
    run oneStep s more = some t ∧ t.answers = s.answers ++ answers ∧
    answers.map (·.request) = [servedRequest, servedRequest] ∧
    ∀ e ∈ answers, e.response = localAnswer wireServer e.request := by
  have h : (run ServiceDirectory.step (ServiceDirectory.start .standalone) registering).map
      (fun fleet =>
        (discoverService .standalone (fleet.registry 2) (text "A") fleet.tree).toOption) =
      some (some [⟨text "A", text "h", 80, 1, true, 0, []⟩]) := by
    decide +kernel
  obtain ⟨fleet, hfleet, hview⟩ := Option.map_eq_some_iff.mp h
  have hdiscovered : discoverService .standalone (fleet.registry 2) (text "A") fleet.tree =
      .ok [⟨text "A", text "h", 80, 1, true, 0, []⟩] := by
    cases hfound : discoverService .standalone (fleet.registry 2) (text "A") fleet.tree with
    | error e =>
      rw [hfound] at hview
      cases hview
    | ok instances =>
      rw [hfound] at hview
      exact congrArg Except.ok (Option.some.inj hview)
  have hrun : run oneStep (initial .standalone twiceStub) (registering.map .fleet) =
      some { initial .standalone twiceStub with fleet := fleet } :=
    (run_fleet _ _).trans (congrArg (Option.map _) hfleet)
  have hallowed : Guarded oneStep (Allowed oneServer) (initial .standalone twiceStub)
      (registering.map .fleet) := by
    have hname : (47 : UInt8) ∉ text "A" ∧ 0 ∉ text "A" := by decide
    apply guarded_of_begun
    simp [registering, ServiceDirectory.Proper, hname]
  obtain ⟨more, t, answers, -, hmore, hanswers, hrequests, hresponses⟩ :=
    discovered_calls_complete (fun _ => wire_proto3) (fun _ => wireServer_errorsSerialize)
      (fun _ => wireServer_throwsText) roundRobin_honors (by decide) rfl rfl (by decide) (by decide)
      hallowed hrun rfl (fun d hd => by cases hd) hdiscovered
      ⟨_, List.mem_singleton_self _, rfl⟩ [(text "B", 7, [1]), (text "B", 7, [1])]
      (by simp [Call.request, twiceStub, askedStub, wire_servable])
      [CallTruth.refusedClient, CallTruth.refusedClient] rfl (by decide)
  exact ⟨_, more, t, answers, hrun, hmore, hanswers, hrequests, hresponses⟩

end Run

end Mprpc.DiscoveredProgress
