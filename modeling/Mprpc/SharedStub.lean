import Mprpc.LocalCalls

namespace Mprpc.SharedStub

open Transport RpcProtocolHelper RpcServer TcpServer Deployment
open ServerAnswers EnvelopeTrip RemoteCalls LocalCalls
open Library.Transition

variable {μ τ : Type} {server : RpcServer μ} {workers : Nat}

/-- A thread that calls `sendRpcRequest`: it waits at the lock, holds it, and comes back with a
response or an exception. -/
inductive Thread
  | outside
  | waiting (request : RpcRequest)
  | inside (request : RpcRequest)
  | back (request : RpcRequest) (response : Option RpcResponse)
deriving DecidableEq, Repr

/-- One stub that threads share, and `mutex_`. -/
structure Shared (τ : Type) where
  deployment : Deployment
  mutex : Option τ
  threads : τ → Thread

inductive Act (τ : Type)
  | begin (i : τ) (request : RpcRequest)
  | lock (i : τ)
  | send (i : τ) (result : SendResult)
  | recv (i : τ) (outcome : Recv)
  | unlock (i : τ)
  | read (result : Readv)
  | serve (k : Nat)
deriving DecidableEq, Repr

def start (sockfd : Int) (peerAddr : Text) : Shared τ :=
  ⟨Deployment.initial sockfd peerAddr, none, fun _ => .outside⟩

def Shared.goTo [DecidableEq τ] (i : τ) (thread : Thread) (s : Shared τ) : Shared τ :=
  { s with threads := Function.update s.threads i thread }

def Shared.onDeployment (server : RpcServer μ) (workers : Nat) (act : Deployment.Act)
    (s : Shared τ) : Option (Shared τ) :=
  (Deployment.step server workers s.deployment act).map fun d => { s with deployment := d }

/-- `sendRpcRequest` holds the lock from its first line to its last; the other side goes on
by itself. -/
def step [DecidableEq τ] (server : RpcServer μ) (workers : Nat) (s : Shared τ) :
    Act τ → Option (Shared τ)
  | .begin i request =>
    match s.threads i with
    | .outside | .back _ _ => some (s.goTo i (.waiting request))
    | _ => none
  | .lock i =>
    match s.threads i, s.mutex with
    | .waiting request, none =>
      (s.onDeployment server workers (.call request)).map fun s =>
        { s.goTo i (.inside request) with mutex := some i }
    | _, _ => none
  | .send i result =>
    match s.threads i with
    | .inside _ => s.onDeployment server workers (.send result)
    | _ => none
  | .recv i outcome =>
    match s.threads i with
    | .inside _ => s.onDeployment server workers (.recv outcome)
    | _ => none
  | .unlock i =>
    match s.threads i, s.deployment.session.phase with
    | .inside request, .idle =>
      some { s.goTo i (.back request (lastReturned s.deployment)) with mutex := none }
    | _, _ => none
  | .read result => s.onDeployment server workers (.read result)
  | .serve k => s.onDeployment server workers (.serve k)

/-- A thread takes the lock when nothing of an earlier call is under way. -/
def Calm (server : RpcServer μ) (s : Shared τ) : Act τ → Prop
  | .lock i => ∀ request, s.threads i = .waiting request →
    LocalCalls.Calm server s.deployment (.call request)
  | _ => True

/-- The deployment is settled, the thread that holds the lock has made the last call, and
what a thread came back with is the local answer to its own request. -/
structure Sound (server : RpcServer μ) (s : Shared τ) : Prop where
  settled : ∃ t, Settled server s.deployment t
  holds : ∀ i request, s.threads i = .inside request →
    s.mutex = some i ∧ s.deployment.requests.getLast? = some request
  own : ∀ i request response, s.threads i = .back request (some response) →
    response = localAnswer server request

theorem start_sound (server : RpcServer μ) (sockfd : Int) (peerAddr : Text) :
    Sound server (start sockfd peerAddr : Shared τ) := by
  refine ⟨⟨_, initial_settled server sockfd peerAddr⟩, ?_, ?_⟩
  · intro i request h
    cases h
  · intro i request response h
    cases h

section Steps

variable {s t : Shared τ} {i : τ}

theorem Sound.onDeployment (sound : Sound server s) (hsafe : ErrorsSerialize server)
    {act : Deployment.Act} (hact : ∀ request, act ≠ .call request)
    (h : s.onDeployment server workers act = some t) : Sound server t := by
  obtain ⟨d, hstep, rfl⟩ := Option.map_eq_some_iff.mp h
  obtain ⟨session, settled⟩ := sound.settled
  have hcalm : LocalCalls.Calm server s.deployment act := by
    cases act with
    | call request => exact absurd rfl (hact request)
    | _ => trivial
  refine ⟨settled.step hsafe hcalm hstep, ?_, sound.own⟩
  intro j request hj
  obtain ⟨hmutex, hlast⟩ := sound.holds j request hj
  refine ⟨hmutex, ?_⟩
  rw [(requests_kept hact hstep).1]
  exact hlast

theorem begin_sound [DecidableEq τ] {request : RpcRequest} (sound : Sound server s) :
    Sound server (s.goTo i (.waiting request)) := by
  refine ⟨sound.settled, ?_, ?_⟩
  · intro j other hj
    by_cases hji : j = i
    · subst hji
      simp [Shared.goTo] at hj
    · exact sound.holds j other (by simpa [Shared.goTo, hji] using hj)
  · intro j other response hj
    by_cases hji : j = i
    · subst hji
      simp [Shared.goTo] at hj
    · exact sound.own j other response (by simpa [Shared.goTo, hji] using hj)

theorem lock_sound [DecidableEq τ] {request : RpcRequest} (sound : Sound server s)
    (hsafe : ErrorsSerialize server)
    (hfree : s.mutex = none) (hcalm : LocalCalls.Calm server s.deployment (.call request))
    (h : s.onDeployment server workers (.call request) = some t) :
    Sound server { t.goTo i (.inside request) with mutex := some i } := by
  obtain ⟨d, hstep, rfl⟩ := Option.map_eq_some_iff.mp h
  obtain ⟨session, settled⟩ := sound.settled
  refine ⟨settled.step hsafe hcalm hstep, ?_, ?_⟩
  · intro j other hj
    by_cases hji : j = i
    · subst hji
      obtain ⟨session, -, rfl⟩ := Option.map_eq_some_iff.mp hstep
      have heq : request = other := by simpa [Shared.goTo] using hj
      subst heq
      exact ⟨rfl, List.getLast?_concat⟩
    · obtain ⟨hmutex, -⟩ := sound.holds j other (by simpa [Shared.goTo, hji] using hj)
      rw [hfree] at hmutex
      cases hmutex
  · intro j other response hj
    by_cases hji : j = i
    · subst hji
      simp [Shared.goTo] at hj
    · exact sound.own j other response (by simpa [Shared.goTo, hji] using hj)

theorem unlock_sound [DecidableEq τ] {request : RpcRequest} (hproto : Proto3 server.protobuf)
    (hthrows : ThrowsText server) (sound : Sound server s) (hi : s.threads i = .inside request) :
    Sound server { s.goTo i (.back request (lastReturned s.deployment)) with mutex := none } := by
  refine ⟨sound.settled, ?_, ?_⟩
  · intro j other hj
    by_cases hji : j = i
    · subst hji
      simp [Shared.goTo] at hj
    · have hboth := (sound.holds j other (by simpa [Shared.goTo, hji] using hj)).1
      rw [(sound.holds i request hi).1] at hboth
      exact absurd (Option.some.inj hboth).symm hji
  · intro j other response hj
    by_cases hji : j = i
    · subst hji
      have heq : request = other ∧ lastReturned s.deployment = some response := by
        simpa [Shared.goTo] using hj
      obtain ⟨rfl, hreturned⟩ := heq
      obtain ⟨session, settled⟩ := sound.settled
      exact settled.lastReturned_local hproto hthrows (sound.holds j request hi).2 hreturned
    · exact sound.own j other response (by simpa [Shared.goTo, hji] using hj)

theorem step_sound [DecidableEq τ] (hproto : Proto3 server.protobuf)
    (hsafe : ErrorsSerialize server)
    (hthrows : ThrowsText server) (s : Shared τ) (act : Act τ) (t : Shared τ)
    (sound : Sound server s) (hcalm : Calm server s act)
    (h : step server workers s act = some t) : Sound server t := by
  cases act with
  | begin i request =>
    simp only [step] at h
    split at h
    · cases h
      exact begin_sound sound
    · cases h
      exact begin_sound sound
    · cases h
  | lock i =>
    simp only [step] at h
    split at h
    · rename_i request hthread hfree
      obtain ⟨u, hcall, rfl⟩ := Option.map_eq_some_iff.mp h
      exact lock_sound sound hsafe hfree (hcalm request hthread) hcall
    · cases h
  | send i result | recv i outcome =>
    simp only [step] at h
    split at h
    · exact sound.onDeployment hsafe (by simp) h
    · cases h
  | unlock i =>
    simp only [step] at h
    split at h
    · rename_i request hthread hphase
      cases h
      exact unlock_sound hproto hthrows sound hthread
    · cases h
  | read result | serve k => exact sound.onDeployment hsafe (by simp) h

end Steps

/-- However many threads share a stub, and however their calls, the network and the workers of
the server interleave, what a thread comes back with is the local answer to its own request. -/
theorem threads_get_own [DecidableEq τ] (hproto : Proto3 server.protobuf)
    (hsafe : ErrorsSerialize server)
    (hthrows : ThrowsText server) {sockfd : Int} {peerAddr : Text} {acts : List (Act τ)}
    {s : Shared τ}
    (hcalm : Guarded (step server workers) (Calm server) (start sockfd peerAddr) acts)
    (h : run (step server workers) (start sockfd peerAddr) acts = some s) (i : τ)
    (request : RpcRequest) (response : RpcResponse)
    (hback : s.threads i = .back request (some response)) :
    response = localAnswer server request :=
  (run_invariant (step_sound hproto hsafe hthrows) (start_sound server sockfd peerAddr)
    hcalm h).own i request response hback

section Threads

def firstRequest : RpcRequest := ⟨7, text "A", text "B", [1]⟩

def secondRequest : RpcRequest := ⟨8, text "A", text "B", [2]⟩

def firstCall : List (Act Bool) :=
  [.send true (.sent 15), .read (.bytes [0, 0, 0, 11, 8, 7]),
    .read (.bytes [18, 1, 65, 26, 1, 66, 42, 1, 1]), .serve 0, .recv true (.ready 4),
    .recv true (.ready 7), .unlock true]

def secondCall : List (Act Bool) :=
  [.send false (.sent 15), .read (.bytes [0, 0, 0, 11, 8, 8, 18, 1, 65, 26, 1, 66, 42, 1, 2]),
    .serve 0, .recv false (.ready 4), .recv false (.ready 7), .unlock false]

/-- The second thread waits while the first one calls, and then takes the lock. -/
def twoThreads : List (Act Bool) :=
  [.begin true firstRequest, .begin false secondRequest] ++
    (.lock true :: firstCall ++ .lock false :: secondCall)

theorem guarded_of_unlocked {s : Shared Bool} {acts : List (Act Bool)}
    (h : ∀ act ∈ acts, ∀ i, act ≠ .lock i) :
    Guarded (step wireServer 4) (Calm wireServer) s acts := by
  refine guarded_of_invariant (P := fun _ => True) (Q := fun act => ∀ i, act ≠ .lock i)
    (fun _ _ _ _ _ _ => trivial) ?_ trivial h
  intro s act _ hact
  cases act with
  | lock i => exact absurd rfl (hact i)
  | _ => trivial

/-- What a thread that takes the lock must find. -/
def view (i : Bool) (s : Shared Bool) : Thread × ConnectionState × List Bytes × List Bytes :=
  (s.threads i, s.deployment.connection.state, s.deployment.tasks,
    [s.deployment.connection.inputBuffer.readable, s.deployment.session.toServer,
      s.deployment.session.incoming])

theorem lock_calm {s : Shared Bool} {i : Bool} {request : RpcRequest}
    (hview : view i s = (.waiting request, .connected, [], [[], [], []]))
    (hsized : SessionStream.Sized wireServer.protobuf (.call request))
    (hservice : ValidUtf8 request.serviceName) (hmethod : ValidUtf8 request.methodName) :
    Calm wireServer s (.lock i) := by
  simp only [view, Prod.mk.injEq, List.cons.injEq, and_true] at hview
  obtain ⟨hthread, hopen, htasks, hread, hstream, hincoming⟩ := hview
  intro asked hasked
  rw [hthread] at hasked
  cases hasked
  exact ⟨hsized, hservice, hmethod, fun _ => ⟨hopen, htasks, hread, hstream, hincoming⟩⟩

theorem twoThreads_calm :
    Guarded (step wireServer 4) (Calm wireServer) (start 5 []) twoThreads := by
  have hfirst : (run (step wireServer 4) (start 5 [])
      [.begin true firstRequest, .begin false secondRequest]).map (view true) =
      some (.waiting firstRequest, .connected, [], [[], [], []]) := by
    decide +kernel
  obtain ⟨s, hs, hview⟩ := Option.map_eq_some_iff.mp hfirst
  refine guarded_append (guarded_of_unlocked (by simp)) hs ⟨lock_calm hview ?_ ⟨"A", rfl⟩
    ⟨"B", rfl⟩, ?_⟩
  · intro payload hpayload
    cases hpayload
    decide
  intro t ht
  have hsecond : (run (step wireServer 4) (start 5 [])
      ([.begin true firstRequest, .begin false secondRequest] ++ .lock true :: firstCall)).map
        (view false) = some (.waiting secondRequest, .connected, [], [[], [], []]) := by
    decide +kernel
  obtain ⟨u, hu, hview'⟩ := Option.map_eq_some_iff.mp hsecond
  obtain ⟨s', hs', hrest⟩ := run_append_some.mp hu
  obtain rfl : s = s' := Option.some.inj (hs.symm.trans hs')
  obtain ⟨t', ht', hcall⟩ := run_cons_some.mp hrest
  obtain rfl : t = t' := Option.some.inj (ht.symm.trans ht')
  refine guarded_append (guarded_of_unlocked (by simp [firstCall])) hcall
    ⟨lock_calm hview' ?_ ⟨"A", rfl⟩ ⟨"B", rfl⟩, ?_⟩
  · intro payload hpayload
    cases hpayload
    decide
  intro v _
  exact guarded_of_unlocked (by simp [secondCall])

theorem threads_get_own_two : ∃ s, run (step wireServer 4) (start 5 []) twoThreads = some s ∧
    s.threads false = .back secondRequest (some ⟨8, true, [], [2]⟩) ∧
    (⟨8, true, [], [2]⟩ : RpcResponse) = localAnswer wireServer secondRequest := by
  have h : (run (step wireServer 4) (start 5 []) twoThreads).map (fun s => s.threads false) =
      some (.back secondRequest (some ⟨8, true, [], [2]⟩)) := by
    decide +kernel
  obtain ⟨s, hrun, hback⟩ := Option.map_eq_some_iff.mp h
  exact ⟨s, hrun, hback, threads_get_own wire_proto3 wireServer_errorsSerialize
    wireServer_throwsText twoThreads_calm hrun false secondRequest _ hback⟩

end Threads

end Mprpc.SharedStub
