import Mprpc.CallProgress

namespace Mprpc

open Transport RpcServer TcpServer Library.Transition

/-- Who has connected to the server: a stub, or something else, of which the bytes it writes are
in the `toServer` of its session and nothing is said about what it makes of the answers. -/
structure SharedPeer where
  isStub : Bool
  deployment : Deployment
deriving DecidableEq, Repr

/-- One server with any number of connections. The frames of all of them wait in the queue of
its pool: `queue` says whose each is, and the frame itself is in the `tasks` of that peer. -/
structure SharedServer where
  peers : List SharedPeer
  queue : List Nat
deriving DecidableEq, Repr

namespace SharedServer

inductive Act
  | accept (isStub : Bool) (sockfd : Int) (peerAddr : Text)
  | call (i : Nat) (request : RpcRequest)
  | send (i : Nat) (result : SendResult)
  | recv (i : Nat) (outcome : Recv)
  | write (i : Nat) (data : Bytes)
  | read (i : Nat) (result : Readv)
  | sendFails (i : Nat) (errorMsg : Text)
  | serve (k : Nat)
deriving DecidableEq, Repr

def start : SharedServer := ⟨[], []⟩

variable {μ : Type} (server : RpcServer μ) (workers : Nat)

/-- What one peer does leaves the others alone. -/
def onPeer (s : SharedServer) (i : Nat) (isStub : Bool) (act : Deployment → Option Deployment) :
    Option SharedServer :=
  match s.peers[i]? with
  | none => none
  | some peer =>
    if peer.isStub = isStub then
      (act peer.deployment).map fun d => { s with peers := s.peers.set i ⟨isStub, d⟩ }
    else none

def writeStep (data : Bytes) (d : Deployment) : Option Deployment :=
  some { d with session := { d.session with toServer := d.session.toServer ++ data } }

/-- A send of a worker to a peer that has gone. -/
def sendFailsStep (errorMsg : Text) (d : Deployment) : Option Deployment :=
  match (TcpConnection.handleError errorMsg).run d.connection with
  | .ok _ c => some { d with connection := c }
  | .error _ _ => none

/-- The event loop reads from one connection; its new frames come last in the queue. -/
def readStep (s : SharedServer) (i : Nat) (result : Readv) : Option SharedServer :=
  match s.peers[i]? with
  | none => none
  | some peer =>
    (peer.deployment.readStep result).map fun d =>
      { s with
        peers := s.peers.set i { peer with deployment := d }
        queue := s.queue ++ List.replicate (d.tasks.length - peer.deployment.tasks.length) i }

/-- A worker is done with a frame, which is one of the oldest, as many as there are workers. -/
def serveStep (s : SharedServer) (k : Nat) : Option SharedServer :=
  match s.queue[k]? with
  | none => none
  | some i =>
    if workers ≤ k then none
    else
      match s.peers[i]? with
      | none => none
      | some peer =>
        let place := (s.queue.take k).count i
        let served :=
          if peer.isStub then peer.deployment.serveStep server workers place
          else some { peer.deployment with tasks := peer.deployment.tasks.eraseIdx place }
        served.map fun d =>
          { s with
            peers := s.peers.set i { peer with deployment := d }
            queue := s.queue.eraseIdx k }

def step (s : SharedServer) : Act → Option SharedServer
  | .accept isStub sockfd peerAddr =>
    some { s with peers := s.peers ++ [⟨isStub, .initial sockfd peerAddr⟩] }
  | .call i request =>
    s.onPeer i true fun d => Deployment.step server workers d (.call request)
  | .send i result => s.onPeer i true fun d => Deployment.step server workers d (.send result)
  | .recv i outcome => s.onPeer i true fun d => Deployment.step server workers d (.recv outcome)
  | .write i data => s.onPeer i false (writeStep data)
  | .read i result => s.readStep i result
  | .sendFails i errorMsg => s.onPeer i false (sendFailsStep errorMsg)
  | .serve k => s.serveStep server workers k

end SharedServer

namespace SharedServer

open LocalCalls EnvelopeTrip ServerAnswers RemoteCalls

variable {μ : Type} {server : RpcServer μ} {workers : Nat} {s t : SharedServer} {act : Act}

section Projection

variable {i j : Nat} {d d' : Deployment} {peer : SharedPeer}

theorem set_cases {p q : SharedPeer} (h : (s.peers.set j p)[i]? = some q) :
    i = j ∧ q = p ∨ s.peers[i]? = some q := by
  by_cases hij : j = i
  · subst hij
    have hlt : j < s.peers.length := by
      have hlt := (List.getElem?_eq_some_iff.mp h).1
      rwa [List.length_set] at hlt
    rw [List.getElem?_set_self hlt] at h
    exact .inl ⟨rfl, (Option.some.inj h).symm⟩
  · rw [List.getElem?_set_ne hij] at h
    exact .inr h

/-- What a step of the server can be to a stub: its connection begins, or one of its own steps, or
nothing. -/
inductive Seen (server : RpcServer μ) (workers : Nat) (s : SharedServer) (act : Act) (i : Nat)
    (d' : Deployment) : Prop
  | accepted {sockfd : Int} {peerAddr : Text} : d' = .initial sockfd peerAddr →
      Seen server workers s act i d'
  | untouched : s.peers[i]? = some ⟨true, d'⟩ → Seen server workers s act i d'
  | moved {d : Deployment} {act' : Deployment.Act} : s.peers[i]? = some ⟨true, d⟩ →
      Deployment.step server workers d act' = some d' →
      (∀ request, act' = .call request → act = .call i request) → Seen server workers s act i d'

theorem onPeer_seen {isStub : Bool} {own : Deployment → Option Deployment}
    (h : s.onPeer j isStub own = some t) (ht : t.peers[i]? = some ⟨true, d'⟩) :
    s.peers[i]? = some ⟨true, d'⟩ ∨ isStub = true ∧ i = j ∧ ∃ d, s.peers[i]? = some ⟨true, d⟩ ∧
      own d = some d' := by
  unfold onPeer at h
  split at h
  · cases h
  rename_i peer hpeer
  split at h
  · rename_i hkind
    obtain ⟨d, hown, rfl⟩ := Option.map_eq_some_iff.mp h
    obtain ⟨rfl, hq⟩ | hother := set_cases ht
    · cases hq
      obtain ⟨isStub, e⟩ := peer
      cases hkind
      exact .inr ⟨rfl, rfl, e, hpeer, hown⟩
    · exact .inl hother
  · cases h

theorem step_seen (h : step server workers s act = some t) (ht : t.peers[i]? = some ⟨true, d'⟩) :
    Seen server workers s act i d' := by
  cases act with
  | accept isStub sockfd peerAddr =>
    cases h
    obtain hlt | hle := Nat.lt_or_ge i s.peers.length
    · rw [List.getElem?_append_left hlt] at ht
      exact .untouched ht
    · rw [List.getElem?_append_right hle] at ht
      obtain ⟨rfl, rfl⟩ := SharedPeer.mk.inj (List.mem_singleton.mp (List.mem_of_getElem? ht))
      exact .accepted rfl
  | call j request =>
    rw [step] at h
    obtain hsame | ⟨-, rfl, d, hd, hown⟩ := onPeer_seen h ht
    · exact .untouched hsame
    · refine .moved hd hown ?_
      intro request' heq
      cases heq
      rfl
  | send j result =>
    rw [step] at h
    obtain hsame | ⟨-, rfl, d, hd, hown⟩ := onPeer_seen h ht
    · exact .untouched hsame
    · exact .moved hd hown fun _ hact => by cases hact
  | recv j outcome =>
    rw [step] at h
    obtain hsame | ⟨-, rfl, d, hd, hown⟩ := onPeer_seen h ht
    · exact .untouched hsame
    · exact .moved hd hown fun _ hact => by cases hact
  | write j data =>
    rw [step] at h
    obtain hsame | ⟨hstub, -⟩ := onPeer_seen h ht
    · exact .untouched hsame
    · cases hstub
  | sendFails j errorMsg =>
    rw [step] at h
    obtain hsame | ⟨hstub, -⟩ := onPeer_seen h ht
    · exact .untouched hsame
    · cases hstub
  | read j result =>
    simp only [step, readStep] at h
    split at h
    · cases h
    rename_i peer hpeer
    obtain ⟨d, hread, rfl⟩ := Option.map_eq_some_iff.mp h
    obtain ⟨rfl, hq⟩ | hother := set_cases ht
    · obtain ⟨isStub, e⟩ := peer
      cases hq
      have hstep : Deployment.step server workers e (.read result) = some d' := hread
      exact .moved hpeer hstep fun _ hact => by cases hact
    · exact .untouched hother
  | serve k =>
    simp only [step, serveStep] at h
    split at h
    · cases h
    split at h
    · cases h
    split at h
    · cases h
    rename_i j hj hfree peer hpeer
    obtain ⟨d, hserve, rfl⟩ := Option.map_eq_some_iff.mp h
    obtain ⟨rfl, hq⟩ | hother := set_cases ht
    · obtain ⟨isStub, e⟩ := peer
      cases hq
      have hstep : Deployment.step server workers e (.serve ((s.queue.take k).count i)) =
          some d' := hserve
      exact .moved hpeer hstep fun _ hact => by cases hact
    · exact .untouched hother

end Projection

section Answers

/-- A stub begins a call only with nothing of an earlier one under way; the other peers do as they
like. -/
def Allowed (server : RpcServer μ) (s : SharedServer) : Act → Prop
  | .call i request => ∀ d, s.peers[i]? = some ⟨true, d⟩ → Calm server d (.call request)
  | _ => True

/-- To each stub it is as if it were alone with the server. -/
def Sound (server : RpcServer μ) (s : SharedServer) : Prop :=
  ∀ (i : Nat) d, s.peers[i]? = some ⟨true, d⟩ → ∃ session, Settled server d session

theorem start_sound (server : RpcServer μ) : Sound server start := by
  intro i d h
  cases h

theorem step_sound (hsafe : ErrorsSerialize server) (s : SharedServer) (act : Act)
    (t : SharedServer) (sound : Sound server s) (hallowed : Allowed server s act)
    (h : step server workers s act = some t) : Sound server t := by
  intro i d' ht
  cases step_seen h ht with
  | @accepted sockfd peerAddr hnew =>
    rw [hnew]
    exact ⟨_, initial_settled server sockfd peerAddr⟩
  | untouched hd => exact sound i d' hd
  | @moved d act' hd hstep hcall =>
    obtain ⟨session, settled⟩ := sound i d hd
    refine settled.step hsafe ?_ hstep
    cases act' with
    | call request =>
      obtain rfl := hcall request rfl
      exact hallowed d hd
    | _ => trivial

/-- With any number of stubs and of others on one server, whatever the others send it, in whichever
order the event loop reads and the workers come to the frames of all of them: what a call of a stub
returns is the local answer to its own request. -/
theorem stubs_get_own (hproto : Proto3 server.protobuf) (hsafe : ErrorsSerialize server)
    (hthrows : ThrowsText server) {acts : List Act}
    (hallowed : Guarded (step server workers) (Allowed server) start acts)
    (hrun : run (step server workers) start acts = some s) {d : Deployment}
    (hd : ⟨true, d⟩ ∈ s.peers) {number : Nat} {response : RpcResponse}
    (hreturned : (number, response) ∈ d.session.returned) :
    ∃ request, d.requests[number - 1]? = some request ∧
      response = localAnswer server request := by
  have sound : Sound server s :=
    run_invariant (step_sound hsafe) (start_sound server) hallowed hrun
  obtain ⟨i, hi⟩ := List.getElem?_of_mem hd
  obtain ⟨session, settled⟩ := sound i d hi
  exact settled.returned_local hproto hthrows hreturned

theorem silent_allowed (s : SharedServer) {acts : List Act}
    (h : ∀ act ∈ acts, ∀ i request, act ≠ .call i request) :
    Guarded (step server workers) (Allowed server) s acts := by
  refine guarded_of_invariant (P := fun _ => True) (fun _ _ _ _ _ _ => trivial) ?_ trivial h
  intro u act _ hact
  cases act with
  | call i request => exact absurd rfl (hact i request)
  | _ => trivial

def sharedRequest : RpcRequest := ⟨7, text "A", text "B", [1]⟩

/-- Something else sends a frame that is no request, which is served after the stub's, though it
has come first. -/
def strangerActs : List Act :=
  [.accept false 4 [], .accept true 5 [], .call 1 sharedRequest, .send 1 (.sent 15),
    .write 0 [0, 0, 0, 1, 9], .read 0 (.bytes [0, 0, 0, 1, 9]),
    .read 1 (.bytes [0, 0, 0, 11, 8, 7, 18, 1, 65, 26, 1, 66, 42, 1, 1]), .serve 1, .serve 0,
    .recv 1 (.ready 4), .recv 1 (.ready 7)]

theorem strangerActs_allowed :
    Guarded (step wireServer 4) (Allowed wireServer) start strangerActs := by
  refine .cons trivial rfl (.cons trivial rfl ⟨?_, fun t _ => silent_allowed t (by simp)⟩)
  intro d hd
  cases hd
  exact (CallProgress.initial_atRest 5 []).calm CallProgress.wire_servable

theorem stubs_get_own_stranger : ∃ s d, run (step wireServer 4) start strangerActs = some s ∧
    ⟨true, d⟩ ∈ s.peers ∧ (1, ⟨7, true, [], [1]⟩) ∈ d.session.returned ∧
    ∃ request, d.requests[1 - 1]? = some request ∧
      (⟨7, true, [], [1]⟩ : RpcResponse) = localAnswer wireServer request := by
  have hview : ((run (step wireServer 4) start strangerActs).bind fun s => s.peers[1]?).map
      (fun peer => (peer.isStub, peer.deployment.session.returned)) =
        some (true, [(1, ⟨7, true, [], [1]⟩)]) := by
    decide +kernel
  obtain ⟨⟨isStub, d⟩, hpeer, hboth⟩ := Option.map_eq_some_iff.mp hview
  obtain ⟨rfl, hreturned⟩ := Prod.mk.inj hboth
  obtain ⟨s, hrun, hpeer⟩ := Option.bind_eq_some_iff.mp hpeer
  have hmem : (1, (⟨7, true, [], [1]⟩ : RpcResponse)) ∈ d.session.returned := by
    rw [hreturned]
    exact List.mem_singleton_self _
  exact ⟨s, d, hrun, List.mem_of_getElem? hpeer, hmem,
    stubs_get_own wire_proto3 wireServer_errorsSerialize wireServer_throwsText strangerActs_allowed
      hrun (List.mem_of_getElem? hpeer) hmem⟩

end Answers

end SharedServer

end Mprpc
