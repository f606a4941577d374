import Mprpc.Decimal
import Mprpc.RemoteCalls

namespace Mprpc.LocalCalls

open Transport RpcProtocolHelper RpcServer TcpServer Deployment
open ServerAnswers SessionStream EnvelopeTrip RemoteCalls
open Library Library.Transition

variable {μ : Type} {server : RpcServer μ} {workers : Nat} {d d' : Deployment} {s : Session}

/-- What a call would come to in the server's own process. -/
def localAnswer (server : RpcServer μ) (request : RpcRequest) : RpcResponse :=
  match server.callServiceMethod request.serviceName request.methodName request.requestData with
  | .ok result => answer request result
  | .error e => { requestId := 0, success := false, errorMessage := e }

/-- The methods throw texts in UTF-8. -/
def ThrowsText (server : RpcServer μ) : Prop :=
  ∀ name service methodName method argument e, server.services name = some service →
    service.findMethodByName methodName = some method → method.callMethod argument = .error e →
    ValidUtf8 e

section Answers

theorem ValidUtf8.append {first second : Text} (h : ValidUtf8 first) (h' : ValidUtf8 second) :
    ValidUtf8 (first ++ second) := by
  obtain ⟨s, rfl⟩ := h
  obtain ⟨t, rfl⟩ := h'
  exact ⟨s ++ t, Decimal.text_append s t⟩

/-- The texts of the server's own errors are as valid as the names in them. -/
theorem callServiceMethod_valid (hthrows : ThrowsText server) {serviceName methodName : Text}
    {requestData : Bytes} (hservice : ValidUtf8 serviceName) (hmethod : ValidUtf8 methodName)
    {e : Text} (h : server.callServiceMethod serviceName methodName requestData = .error e) :
    ValidUtf8 e := by
  unfold callServiceMethod at h
  split at h
  · cases h
    exact ValidUtf8.append ⟨_, rfl⟩ hservice
  rename_i service hfound
  split at h
  · cases h
    exact ValidUtf8.append ⟨_, rfl⟩ hmethod
  rename_i method hmethodFound
  split at h
  · cases h
    exact ⟨_, rfl⟩
  rename_i argument hparse
  cases hcall : method.callMethod argument with
  | error thrown =>
    rw [hcall] at h
    cases h
    exact hthrows serviceName service methodName method argument _ hfound hmethodFound hcall
  | ok response =>
    simp only [hcall, bind, Except.bind] at h
    split at h
    · cases h
      exact ⟨_, rfl⟩
    · cases h

theorem localAnswer_valid (hthrows : ThrowsText server) {request : RpcRequest}
    (hservice : ValidUtf8 request.serviceName) (hmethod : ValidUtf8 request.methodName) :
    ValidUtf8 (localAnswer server request).errorMessage ∧
      ((localAnswer server request).success = true →
        (localAnswer server request).errorMessage = []) := by
  unfold localAnswer
  split
  · exact ⟨⟨"", rfl⟩, fun _ => rfl⟩
  · rename_i e herror
    exact ⟨callServiceMethod_valid hthrows hservice hmethod herror, fun h => by cases h⟩

theorem sendResponse_ok (peer : Text) {response : RpcResponse} {data : Bytes}
    (h : serializeResponse server.protobuf response = .ok data) (log : List Sent) :
    (server.sendResponse (some peer) response).run log =
      .ok () (log ++ [⟨peer, response, FrameCodec.encode data⟩]) := by
  simp only [sendResponse, serializeRpcResponse, h, orThrow, EStateM.run_bind, EStateM.run_pure,
    EStateM.run_modify]

/-- What the server sends for a payload that it can read is the local answer. -/
theorem handleRpcRequest_local (peer : Text) {payload data : Bytes} {request : RpcRequest}
    (hparse : parseRequest server.protobuf payload = .ok request)
    (hdata : serializeResponse server.protobuf (localAnswer server request) = .ok data)
    (log : List Sent) :
    (server.handleRpcRequest (some peer) payload).run log =
      .ok () (log ++ [⟨peer, localAnswer server request, FrameCodec.encode data⟩]) := by
  have hrequest := (parseRpcRequest_ok payload request).mpr hparse
  rw [handleRpcRequest_run]
  unfold localAnswer at hdata ⊢
  cases hcall : server.callServiceMethod request.serviceName request.methodName
      request.requestData with
  | ok result =>
    have hout : outcome server payload = .ok (request, result) := by
      simp only [outcome, hrequest, hcall]
    rw [hcall] at hdata
    rw [hout]
    dsimp only at hdata ⊢
    rw [sendResponse_ok peer hdata]
  | error e =>
    have hout : outcome server payload = .error e := by
      simp only [outcome, hrequest, hcall]
    rw [hcall] at hdata
    rw [hout]
    exact sendResponse_ok peer hdata log

theorem parse_reply (hproto : Proto3 server.protobuf) (hthrows : ThrowsText server)
    {request : RpcRequest} (hservice : ValidUtf8 request.serviceName)
    (hmethod : ValidUtf8 request.methodName) {payload reply : Bytes} (hne : payload ≠ [])
    (hpayload : serializeRequest server.protobuf request = .ok payload)
    (hreply : Replies server payload reply) :
    parseResponse server.protobuf reply = .ok (localAnswer server request) := by
  obtain ⟨bytes, hserialize, hparse, hempty⟩ := request_trip hproto hservice hmethod
  obtain rfl : bytes = payload := Except.ok.inj (hserialize.symm.trans hpayload)
  have hdefault : request ≠ {} := by
    intro hrequest
    have hnil := (hproto.request_nil (createRequestProto request)).mpr (by rw [hrequest]; rfl)
    unfold serializeRequest at hserialize
    rw [hnil] at hserialize
    exact hne (Except.ok.inj hserialize).symm
  obtain ⟨hvalid, hsuccess⟩ := localAnswer_valid hthrows hservice hmethod
  obtain ⟨data, hdata, hback⟩ := response_trip hproto hvalid hsuccess
  obtain ⟨peer, sent, hrun, hsent⟩ := hreply
  rw [handleRpcRequest_local peer (hparse hdefault) hdata] at hrun
  cases hrun
  rw [hdata] at hsent
  rwa [← Except.ok.inj hsent]

end Answers

section Calm

/-- A request whose names are texts, and that finds nothing of an earlier call on the way, on
the server or on the way back. -/
def Calm (server : RpcServer μ) (d : Deployment) : Act → Prop
  | .call request =>
    SessionStream.Sized server.protobuf (.call request) ∧
      ValidUtf8 request.serviceName ∧ ValidUtf8 request.methodName ∧
      (d.session.state = .connected → d.connection.state = .connected ∧ d.tasks = [] ∧
        d.connection.inputBuffer.readable = [] ∧ d.session.toServer = [] ∧
        d.session.incoming = [])
  | _ => True

/-- What holds of a deployment whose calls are calm: it is a session in which each call finds
the streams empty, so that no two requests wait. -/
structure Settled (server : RpcServer μ) (d : Deployment) (s : Session) : Prop where
  refines : Refines server d s
  inv : RequestResponse.Inv server.protobuf s
  single : d.session.pending.length ≤ 1
  valid : ∀ request ∈ d.requests, ValidUtf8 request.serviceName ∧ ValidUtf8 request.methodName

theorem Calm.sized {act : Act} (h : Calm server d act) : RemoteCalls.Sized server d act := by
  cases act with
  | call request => exact h.1
  | _ => trivial

theorem initial_settled (server : RpcServer μ) (sockfd : Int) (peerAddr : Text) :
    Settled server (initial sockfd peerAddr) Session.initial where
  refines := initial_refines server sockfd peerAddr
  inv := RequestResponse.initial_inv server.protobuf
  single := Nat.zero_le 1
  valid request h := by cases h

theorem Settled.record (h : Settled server d s) :
    s.calls = d.session.calls ∧ s.phase = d.session.phase ∧ s.state = d.session.state ∧
      s.pending = d.session.pending ∧ s.returned = d.session.returned := by
  obtain ⟨front, hs, -⟩ := h.refines.client
  rw [hs]
  exact ⟨rfl, rfl, rfl, rfl, rfl⟩

theorem Settled.fresh (h : Settled server d s) {request : RpcRequest}
    (hcalm : Calm server d (.call request)) :
    RequestResponse.Fresh s (.call request) := by
  intro hstate
  obtain ⟨-, -, hstates, -, -⟩ := h.record
  obtain ⟨front, hs, hfront⟩ := h.refines.client
  obtain ⟨hopen, htasks, hread, hstream, hincoming⟩ := hcalm.2.2.2 (hstates ▸ hstate)
  rw [hfront hopen, htasks, hread] at hs
  constructor
  · have hfield := congrArg Session.toServer hs
    exact hfield.trans hstream
  · have hfield := congrArg Session.incoming hs
    exact hfield.trans hincoming

/-- A step is one of the client, or one of the server, which changes nothing of the session but
the streams and the requests that wait. -/
theorem step_cases {act : Act} (hstep : step server workers d act = some d') :
    (∃ act' session more, Session.step server.protobuf d.session act' = some session ∧
      d' = { d with session := session, requests := d.requests ++ more } ∧
      (∀ reply, act' ≠ .answer reply) ∧
      ((∀ request, act ≠ .call request) → more = [] ∧ ∀ request, act' ≠ .call request)) ∨
    ∃ toServer incoming pending, d'.requests = d.requests ∧
      d'.session = { d.session with
        toServer := toServer
        incoming := incoming
        pending := pending } ∧
      pending.length ≤ d.session.pending.length := by
  have hserver : ∀ {tasks c toServer incoming pending},
      some (⟨{ d.session with toServer := toServer, incoming := incoming, pending := pending },
        c, tasks, d.requests⟩ : Deployment) = some d' →
      pending.length ≤ d.session.pending.length →
      ∃ toServer incoming pending, d'.requests = d.requests ∧
        d'.session = { d.session with
          toServer := toServer
          incoming := incoming
          pending := pending } ∧
        pending.length ≤ d.session.pending.length := by
    rintro tasks c toServer incoming pending h hlen
    cases h
    exact ⟨toServer, incoming, pending, rfl, rfl, hlen⟩
  cases act with
  | call request =>
    obtain ⟨session, hsession, rfl⟩ := Option.map_eq_some_iff.mp hstep
    refine .inl ⟨_, session, [request], hsession, rfl, ?_, fun h => absurd rfl (h request)⟩
    intro reply h
    cases h
  | send result =>
    obtain ⟨session, hsession, rfl⟩ := Option.map_eq_some_iff.mp hstep
    refine .inl ⟨_, session, [], hsession, by rw [List.append_nil], ?_, fun _ => ⟨rfl, ?_⟩⟩
    · intro reply h
      cases h
    · intro request h
      cases h
  | recv outcome =>
    obtain ⟨session, hsession, rfl⟩ := Option.map_eq_some_iff.mp hstep
    refine .inl ⟨_, session, [], hsession, by rw [List.append_nil], ?_, fun _ => ⟨rfl, ?_⟩⟩
    · intro reply h
      cases h
    · intro request h
      cases h
  | read result =>
    simp only [step, readStep] at hstep
    split at hstep
    · split at hstep
      · exact .inr (hserver hstep le_rfl)
      · cases hstep
    · cases hstep
  | serve k =>
    simp only [step, serveStep] at hstep
    split at hstep
    · cases hstep
    split at hstep
    · cases hstep
    split at hstep
    · exact .inr (hserver hstep le_rfl)
    split at hstep
    · exact .inr (hserver hstep le_rfl)
    split at hstep
    · cases hstep
    · exact .inr (hserver hstep (List.eraseIdx_sublist _ _).length_le)

theorem requests_kept {act : Act} (hact : ∀ request, act ≠ .call request)
    (hstep : step server workers d act = some d') :
    d'.requests = d.requests ∧ d'.session.pending.length ≤ d.session.pending.length := by
  obtain ⟨act', session, more, hsession, rfl, hanswer, hcall⟩ |
    ⟨toServer, incoming, pending, hrequests, hsession, hlen⟩ := step_cases hstep
  · obtain ⟨rfl, hnone⟩ := hcall hact
    obtain ⟨hpending, -⟩ := pending_of_step hnone hanswer hsession
    exact ⟨List.append_nil _, (congrArg List.length hpending).le⟩
  · rw [hsession]
    exact ⟨hrequests, hlen⟩

theorem Settled.kept (h : Settled server d s) {act : Act}
    (hnames : ∀ request, act = .call request →
      ValidUtf8 request.serviceName ∧ ValidUtf8 request.methodName)
    (hfresh : ∀ request, act = .call request → RequestResponse.Fresh s (.call request))
    (hstep : step server workers d act = some d') :
    d'.session.pending.length ≤ 1 ∧
      ∀ request ∈ d'.requests, ValidUtf8 request.serviceName ∧ ValidUtf8 request.methodName := by
  by_cases hact : ∃ request, act = .call request
  · obtain ⟨request, rfl⟩ := hact
    obtain ⟨session, hsession, rfl⟩ := Option.map_eq_some_iff.mp hstep
    refine ⟨?_, ?_⟩
    · cases Session.moves_of_step hsession with
      | call hphase =>
        obtain hsame | ⟨payload, hconnected, -, -, hmore⟩ := (beginCall_pending server.protobuf
          { d.session with calls := d.session.calls + 1 } request).2
        · exact (congrArg List.length hsame).le.trans h.single
        · obtain ⟨-, hphases, hstates, hpendings, -⟩ := h.record
          have hinPhase := h.inv.phase
          rw [hphases, hphase] at hinPhase
          have hstate : s.state = .connected := hstates.trans hconnected
          have hquiet := (hinPhase hstate).quiet (hfresh request rfl hstate).1
          rw [← hpendings, hquiet.1] at hmore
          exact (congrArg List.length hmore).le
    · intro request' hrequest
      cases List.mem_append.mp hrequest with
      | inl hold => exact h.valid request' hold
      | inr hnew =>
        obtain rfl := List.mem_singleton.mp hnew
        exact hnames request' rfl
  · obtain ⟨hrequests, hpending⟩ := requests_kept (fun request heq => hact ⟨request, heq⟩) hstep
    exact ⟨hpending.trans h.single, hrequests ▸ h.valid⟩

/-- A step of a settled deployment leaves its session as it is or is a step of it. -/
theorem Settled.step_of_fresh (h : Settled server d s) (hsafe : ErrorsSerialize server) {act : Act}
    (hsized : RemoteCalls.Sized server d act)
    (hnames : ∀ request, act = .call request →
      ValidUtf8 request.serviceName ∧ ValidUtf8 request.methodName)
    (hfresh : ∀ request, act = .call request → RequestResponse.Fresh s (.call request))
    (hstep : step server workers d act = some d') :
    ∃ t, Settled server d' t ∧ (t = s ∨ ∃ act', RequestResponse.Fresh s act' ∧
      Session.step server.protobuf s act' = some t) := by
  obtain ⟨hsingle, hvalid⟩ := h.kept hnames hfresh hstep
  have holdest : ∀ k, act = .serve k → d.connection.state = .connected → k = 0 := by
    rintro k rfl hopen
    have hlen := congrArg List.length (h.refines.tasks hopen)
    rw [List.length_take, List.length_map] at hlen
    have hshort := h.single
    by_contra hk
    have hnone : d.tasks[k]? = none := List.getElem?_eq_none_iff.mpr (by omega)
    simp only [Deployment.step, serveStep, hnone] at hstep
    cases hstep
  obtain href | ⟨act', t, ht, href, hcall⟩ := h.refines.step hsafe hsized holdest hstep
  · exact ⟨s, ⟨href, h.inv, hsingle, hvalid⟩, .inl rfl⟩
  · have hfresh' : RequestResponse.Fresh s act' := by
      cases act' with
      | call request => exact hfresh request (hcall request rfl)
      | _ => trivial
    have hinv := RequestResponse.step_inv s act' t h.inv hfresh' ht
    exact ⟨t, ⟨href, hinv, hsingle, hvalid⟩, .inr ⟨act', hfresh', ht⟩⟩

theorem Settled.step (h : Settled server d s) (hsafe : ErrorsSerialize server) {act : Act}
    (hcalm : Calm server d act) (hstep : step server workers d act = some d') :
    ∃ t, Settled server d' t := by
  have hnames : ∀ request, act = .call request →
      ValidUtf8 request.serviceName ∧ ValidUtf8 request.methodName := by
    rintro request rfl
    exact ⟨hcalm.2.1, hcalm.2.2.1⟩
  have hfresh : ∀ request, act = .call request → RequestResponse.Fresh s (.call request) := by
    rintro request rfl
    exact h.fresh hcalm
  obtain ⟨t, hsettled, -⟩ := h.step_of_fresh hsafe hcalm.sized hnames hfresh hstep
  exact ⟨t, hsettled⟩

theorem Settled.run (h : Settled server d s) (hsafe : ErrorsSerialize server) {acts : List Act}
    (hcalm : Guarded (Deployment.step server workers) (Calm server) d acts)
    (hrun : Transition.run (Deployment.step server workers) d acts = some d') :
    ∃ t, Settled server d' t :=
  run_invariant (P := fun d => ∃ s, Settled server d s)
    (fun _ _ _ ⟨_, hsettled⟩ hallows hstep => hsettled.step hsafe hallows hstep)
    ⟨s, h⟩ hcalm hrun

/-- What a call of a settled deployment has returned is the local answer to its request. -/
theorem Settled.returned_local (settled : Settled server d s) (hproto : Proto3 server.protobuf)
    (hthrows : ThrowsText server) {number : Nat} {response : RpcResponse}
    (hreturned : (number, response) ∈ d.session.returned) :
    ∃ request, d.requests[number - 1]? = some request ∧
      response = localAnswer server request := by
  obtain ⟨-, -, -, -, hreturneds⟩ := settled.record
  obtain ⟨reply, hanswered, hparse⟩ :=
    settled.inv.matched number response (hreturneds ▸ hreturned)
  obtain ⟨payload, ⟨hne, request, hrequest, hpayload⟩, hreply⟩ :=
    settled.refines.answered (number, reply) hanswered
  obtain ⟨hservice, hmethod⟩ := settled.valid request (List.mem_of_getElem? hrequest)
  have hlocal := parse_reply hproto hthrows hservice hmethod hne hpayload hreply
  exact ⟨request, hrequest, Except.ok.inj (hparse.symm.trans hlocal)⟩

/-- What the call that has just ended returned. -/
def lastReturned (d : Deployment) : Option RpcResponse :=
  (d.session.returned.find? fun p => p.1 = d.session.calls).map (·.2)

theorem Settled.lastReturned_local (settled : Settled server d s) (hproto : Proto3 server.protobuf)
    (hthrows : ThrowsText server) {request : RpcRequest}
    (hlast : d.requests.getLast? = some request) {response : RpcResponse}
    (h : lastReturned d = some response) : response = localAnswer server request := by
  obtain ⟨⟨number, found⟩, hfind, rfl⟩ := Option.map_eq_some_iff.mp h
  have hnumber : number = d.session.calls := by simpa using List.find?_some hfind
  obtain ⟨asked, hasked, hlocal⟩ :=
    settled.returned_local hproto hthrows (List.mem_of_find?_eq_some hfind)
  rw [List.getLast?_eq_getElem?, settled.refines.counted, ← hnumber, hasked] at hlast
  rw [← Option.some.inj hlast]
  exact hlocal

/-- A remote call is a local one: whatever happens on the network and whichever worker serves
it, a response that call `n` returns is what the server's own process would answer to it. -/
theorem returned_is_local (hproto : Proto3 server.protobuf) (hsafe : ErrorsSerialize server)
    (hthrows : ThrowsText server) (sockfd : Int) (peerAddr : Text) (acts : List Act)
    (d : Deployment)
    (hcalm : Guarded (step server workers) (Calm server) (initial sockfd peerAddr) acts)
    (h : run (step server workers) (initial sockfd peerAddr) acts = some d) :
    ∀ number response, (number, response) ∈ d.session.returned →
      ∃ request, d.requests[number - 1]? = some request ∧
        response = localAnswer server request := by
  obtain ⟨s, settled⟩ := (initial_settled server sockfd peerAddr).run hsafe hcalm h
  intro number response hreturned
  exact settled.returned_local hproto hthrows hreturned

end Calm

section Wire

/-- Service `A` returns the argument of its method `B`. -/
def wireServer : RpcServer Bytes where
  services name := if name = text "A" then
    some ⟨fun method => if method = text "B" then some echo else none⟩ else none
  protobuf := wire

theorem wireServer_errorsSerialize : ErrorsSerialize wireServer := fun _ _ => ⟨_, rfl⟩

theorem wireServer_throwsText : ThrowsText wireServer := by
  intro name service methodName method argument e hservice hmethod hthrows
  simp only [wireServer] at hservice
  split at hservice
  · cases hservice
    dsimp only at hmethod
    split at hmethod
    · cases hmethod
      cases hthrows
    · cases hmethod
  · cases hservice

theorem wireServer_calm :
    Guarded (step wireServer 4) (Calm wireServer) (initial 5 []) echoActs := by
  refine ⟨⟨?_, ⟨"A", rfl⟩, ⟨"B", rfl⟩, fun _ => ⟨rfl, rfl, Buffer.new_readable _, rfl, rfl⟩⟩, ?_⟩
  · intro payload hpayload
    cases hpayload
    decide
  · intro t _
    exact guarded_of_invariant (P := fun _ => True) (Q := fun act => ∀ request, act ≠ .call request)
      (fun _ _ _ _ _ _ => trivial) (fun d act _ hact => by
        cases act with
        | call request => exact absurd rfl (hact request)
        | _ => trivial) trivial (by simp)

theorem wireServer_run : ∃ d, run (step wireServer 4) (initial 5 []) echoActs = some d ∧
    d.requests = [⟨7, text "A", text "B", [1]⟩] ∧
      d.session.returned = [(1, ⟨7, true, [], [1]⟩)] := by
  have hrun : (run (step wireServer 4) (initial 5 []) echoActs).map
      (fun d => (d.requests, d.session.returned)) =
      some ([⟨7, text "A", text "B", [1]⟩], [(1, ⟨7, true, [], [1]⟩)]) := by decide +kernel
  obtain ⟨d, hd, hboth⟩ := Option.map_eq_some_iff.mp hrun
  exact ⟨d, hd, congrArg Prod.fst hboth, congrArg Prod.snd hboth⟩

theorem returned_is_local_wire : ∃ d, run (step wireServer 4) (initial 5 []) echoActs = some d ∧
    ∃ request, d.requests[1 - 1]? = some request ∧
      (⟨7, true, [], [1]⟩ : RpcResponse) = localAnswer wireServer request := by
  obtain ⟨d, hd, -, hreturned⟩ := wireServer_run
  exact ⟨d, hd, returned_is_local wire_proto3 wireServer_errorsSerialize wireServer_throwsText 5 []
    echoActs d wireServer_calm hd 1 _ (by rw [hreturned]; exact List.mem_singleton_self _)⟩

end Wire

end Mprpc.LocalCalls
