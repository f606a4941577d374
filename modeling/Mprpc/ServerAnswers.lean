import Mprpc.EnvelopeWire
import Mprpc.RpcServer

namespace Mprpc.ServerAnswers

open Transport RpcProtocolHelper RpcServer

variable {μ : Type} (server : RpcServer μ)

/-- Everything from the lookup of the service to the serialised result goes well. -/
def Served (request : RpcRequest) (result : Bytes) : Prop :=
  ∃ service method argument response,
    server.services request.serviceName = some service ∧
    service.findMethodByName request.methodName = some method ∧
    method.parseFromArray request.requestData = some argument ∧
    method.callMethod argument = .ok response ∧
    method.serializeToString response = some result

/-- The response that reports a result. -/
def answer (request : RpcRequest) (result : Bytes) : RpcResponse :=
  { requestId := request.requestId, responseData := result, success := true }

/-- A response that carries no result can be serialised. -/
def ErrorsSerialize : Prop :=
  ∀ response : RpcResponse, response.responseData = [] →
    ∃ data, serializeResponse server.protobuf response = .ok data

/-- The frame is that of the response it was made from. -/
def Genuine (connection : Text) (sent : Sent) : Prop :=
  sent.connection = connection ∧
    ∃ data, serializeResponse server.protobuf sent.response = .ok data ∧
      sent.frame = FrameCodec.encode data

variable {server}

theorem callServiceMethod_ok (request : RpcRequest) (result : Bytes) :
    server.callServiceMethod request.serviceName request.methodName request.requestData =
      .ok result ↔ Served server request result := by
  constructor
  · intro h
    unfold callServiceMethod at h
    split at h
    · cases h
    rename_i service hservice
    split at h
    · cases h
    rename_i method hmethod
    split at h
    · cases h
    rename_i argument hparse
    cases hcall : method.callMethod argument with
    | error e =>
      rw [hcall] at h
      cases h
    | ok response =>
      simp only [hcall, bind, Except.bind] at h
      split at h
      · cases h
      · rename_i responseData hserialize
        cases h
        exact ⟨service, method, argument, response, hservice, hmethod, hparse, hcall, hserialize⟩
  · rintro ⟨service, method, argument, response, hservice, hmethod, hparse, hcall, hserialize⟩
    simp only [callServiceMethod, hservice, hmethod, hparse, hcall, bind, Except.bind, hserialize]
    rfl

theorem serializeRpcResponse_ok (hsafe : ErrorsSerialize server) (response : RpcResponse) :
    ∃ sent data, server.serializeRpcResponse response = .ok (sent, data) ∧
      serializeResponse server.protobuf sent = .ok data ∧
      sent.requestId = response.requestId ∧
      ((∃ data, serializeResponse server.protobuf response = .ok data) ∧ sent = response ∨
        (¬ ∃ data, serializeResponse server.protobuf response = .ok data) ∧
          sent.success = false) := by
  cases hfirst : serializeResponse server.protobuf response with
  | ok data =>
    refine ⟨response, data, ?_, hfirst, rfl, .inl ⟨⟨data, rfl⟩, rfl⟩⟩
    simp only [serializeRpcResponse, hfirst]
  | error e =>
    obtain ⟨data, hdata⟩ := hsafe
      { requestId := response.requestId
        success := false
        errorMessage := text "Serialization error: " ++ e } rfl
    refine ⟨_, data, ?_, hdata, rfl, .inr ⟨?_, rfl⟩⟩
    · simp only [serializeRpcResponse, hfirst, hdata]
    · rintro ⟨data, h⟩
      cases h

theorem sendResponse_run (hsafe : ErrorsSerialize server) (connection : Text)
    (response : RpcResponse) (log : List Sent) :
    ∃ sent, (server.sendResponse (some connection) response).run log = .ok () (log ++ [sent]) ∧
      Genuine server connection sent ∧ sent.response.requestId = response.requestId ∧
      ((∃ data, serializeResponse server.protobuf response = .ok data) ∧
          sent.response = response ∨
        (¬ ∃ data, serializeResponse server.protobuf response = .ok data) ∧
          sent.response.success = false) := by
  obtain ⟨sent, data, hserialize, hdata, hid, hcase⟩ := serializeRpcResponse_ok hsafe response
  refine ⟨⟨connection, sent, FrameCodec.encode data⟩, ?_, ⟨rfl, data, hdata, rfl⟩, hid, hcase⟩
  simp only [sendResponse, hserialize, orThrow, EStateM.run_bind, EStateM.run_pure,
    EStateM.run_modify]

theorem run_tryCatch (x : Action Unit) (handler : Text → Action Unit) (log : List Sent) :
    (tryCatch x handler).run log = match x.run log with
      | .ok a log => .ok a log
      | .error e log => (handler e).run log := by
  change EStateM.tryCatch x handler log = _
  unfold EStateM.tryCatch EStateM.run
  cases x log with
  | ok a log => rfl
  | error e log => rfl

/-- Parsing and serving, before anything is sent. -/
def outcome (server : RpcServer μ) (data : Bytes) : Except Text (RpcRequest × Bytes) :=
  match server.parseRpcRequest data with
  | .error e => .error e
  | .ok request =>
    match server.callServiceMethod request.serviceName request.methodName request.requestData with
    | .error e => .error e
    | .ok result => .ok (request, result)

theorem parseRpcRequest_ok (data : Bytes) (request : RpcRequest) :
    server.parseRpcRequest data = .ok request ↔
      parseRequest server.protobuf data = .ok request := by
  unfold parseRpcRequest
  cases parseRequest server.protobuf data with
  | ok parsed => rfl
  | error e => simp

theorem outcome_ok (data : Bytes) (request : RpcRequest) (result : Bytes) :
    outcome server data = .ok (request, result) ↔
      parseRequest server.protobuf data = .ok request ∧ Served server request result := by
  rw [← callServiceMethod_ok, ← parseRpcRequest_ok]
  unfold outcome
  cases hparse : server.parseRpcRequest data with
  | error e => simp
  | ok parsed =>
    cases hcall : server.callServiceMethod parsed.serviceName parsed.methodName
        parsed.requestData with
    | error e =>
      simp only [hcall, reduceCtorEq, Except.ok.injEq, false_iff, not_and]
      rintro rfl
      simp [hcall]
    | ok served =>
      simp only [hcall, Except.ok.injEq, Prod.mk.injEq]
      constructor
      · rintro ⟨rfl, rfl⟩
        exact ⟨rfl, hcall⟩
      · rintro ⟨rfl, h⟩
        rw [hcall] at h
        exact ⟨rfl, Except.ok.inj h⟩

/-- The body of the `try`: all that can throw before the response is sent is in
the outcome. -/
theorem body_run (connection : Option Text) (data : Bytes) (log : List Sent) :
    (do
      let request ← orThrow (server.parseRpcRequest data)
      let responseData ← orThrow (server.callServiceMethod request.serviceName request.methodName
        request.requestData)
      server.sendResponse connection
        { requestId := request.requestId, responseData := responseData, success := true } :
      Action Unit).run log =
    match outcome server data with
    | .ok (request, result) => (server.sendResponse connection (answer request result)).run log
    | .error e => .error e log := by
  unfold outcome
  cases server.parseRpcRequest data with
  | error e => rfl
  | ok request =>
    simp only [EStateM.run_bind, orThrow, EStateM.run_pure]
    cases server.callServiceMethod request.serviceName request.methodName
        request.requestData with
    | error e => rfl
    | ok result => rfl

theorem handleRpcRequest_run (connection : Option Text) (data : Bytes) (log : List Sent) :
    (server.handleRpcRequest connection data).run log =
      match outcome server data with
      | .ok (request, result) =>
        match (server.sendResponse connection (answer request result)).run log with
        | .ok a log => .ok a log
        | .error e log => (server.sendResponse connection
          { requestId := 0, success := false, errorMessage := e }).run log
      | .error e => (server.sendResponse connection
          { requestId := 0, success := false, errorMessage := e }).run log := by
  unfold handleRpcRequest
  rw [run_tryCatch, body_run]
  cases outcome server data with
  | error e => rfl
  | ok served => rfl

/-- What a request comes to: the result goes out under the id of the request, or
an error under the id 0. -/
theorem handleRpcRequest_cases (hsafe : ErrorsSerialize server) (connection : Text) (data : Bytes)
    (log : List Sent) :
    ∃ sent, (server.handleRpcRequest (some connection) data).run log = .ok () (log ++ [sent]) ∧
      Genuine server connection sent ∧
      ((∃ request result, parseRequest server.protobuf data = .ok request ∧
          Served server request result ∧ sent.response.requestId = request.requestId ∧
          ((∃ envelope, serializeResponse server.protobuf (answer request result) = .ok envelope) ∧
              sent.response = answer request result ∨
            (¬ ∃ envelope, serializeResponse server.protobuf (answer request result) =
              .ok envelope) ∧ sent.response.success = false)) ∨
        (∀ request result, parseRequest server.protobuf data = .ok request →
          ¬ Served server request result) ∧
        sent.response.requestId = 0 ∧ sent.response.success = false) := by
  rw [handleRpcRequest_run]
  cases hout : outcome server data with
  | ok served =>
    obtain ⟨request, result⟩ := served
    obtain ⟨hparse, hserved⟩ := (outcome_ok data request result).mp hout
    obtain ⟨sent, hrun, hgenuine, hid, hcase⟩ :=
      sendResponse_run hsafe connection (answer request result) log
    refine ⟨sent, ?_, hgenuine, .inl ⟨request, result, hparse, hserved, hid, hcase⟩⟩
    dsimp only
    rw [hrun]
  | error e =>
    obtain ⟨sent, hrun, hgenuine, hid, hcase⟩ := sendResponse_run hsafe connection
      { requestId := 0, success := false, errorMessage := e } log
    refine ⟨sent, hrun, hgenuine, .inr ⟨?_, hid, ?_⟩⟩
    · intro request result hparse hserved
      have hok := (outcome_ok data request result).mpr ⟨hparse, hserved⟩
      rw [hout] at hok
      cases hok
    · cases hcase with
      | inl h => rw [h.2]
      | inr h => exact h.2

theorem parse_unique {data : Bytes} {first second : RpcRequest}
    (h : parseRequest server.protobuf data = .ok first)
    (h' : parseRequest server.protobuf data = .ok second) : first = second := by
  rw [h] at h'
  exact Except.ok.inj h'

theorem Served.unique {request : RpcRequest} {first second : Bytes}
    (h : Served server request first) (h' : Served server request second) : first = second := by
  rw [← callServiceMethod_ok] at h h'
  rw [h] at h'
  exact Except.ok.inj h'

/-- All goes well, from parsing the payload to serialising the response. -/
def Succeeds (server : RpcServer μ) (data : Bytes) (request : RpcRequest) (result : Bytes) : Prop :=
  parseRequest server.protobuf data = .ok request ∧ Served server request result ∧
    ∃ envelope, serializeResponse server.protobuf (answer request result) = .ok envelope

theorem failure_reported {data : Bytes} {response : RpcResponse} (hfalse : response.success = false)
    (hnot : ∀ request result, ¬ Succeeds server data request result) :
    (response.success = true ↔ ∃ request result, Succeeds server data request result) ∧
      ∀ request result, Succeeds server data request result → response.responseData = result := by
  refine ⟨⟨?_, ?_⟩, fun request result h => absurd h (hnot request result)⟩
  · intro htrue
    rw [hfalse] at htrue
    cases htrue
  · rintro ⟨request, result, h⟩
    exact absurd h (hnot request result)

/-- One payload, one answer: a success with the result exactly when all went
well, else a failure. -/
theorem answers_once (hsafe : ErrorsSerialize server) (connection : Text) (data : Bytes)
    (log : List Sent) :
    ∃ sent, (server.handleRpcRequest (some connection) data).run log = .ok () (log ++ [sent]) ∧
      Genuine server connection sent ∧
      (sent.response.success = true ↔ ∃ request result, Succeeds server data request result) ∧
      ∀ request result, Succeeds server data request result →
        sent.response.responseData = result := by
  obtain ⟨sent, hrun, hgenuine, hcase⟩ := handleRpcRequest_cases hsafe connection data log
  refine ⟨sent, hrun, hgenuine, ?_⟩
  obtain ⟨request, result, hparse, hserved, _, hsent⟩ | ⟨hnone, _, hfalse⟩ := hcase
  · have hunique : ∀ request' result', Succeeds server data request' result' →
        request' = request ∧ result' = result := by
      rintro request' result' ⟨hparse', hserved', _⟩
      obtain rfl := parse_unique hparse' hparse
      exact ⟨rfl, hserved'.unique hserved⟩
    obtain ⟨henvelope, hanswer⟩ | ⟨hno, hfalse⟩ := hsent
    · rw [hanswer]
      refine ⟨⟨fun _ => ⟨request, result, hparse, hserved, henvelope⟩, fun _ => rfl⟩, ?_⟩
      intro request' result' h
      exact (hunique request' result' h).2.symm
    · apply failure_reported hfalse
      intro request' result' h
      obtain ⟨rfl, rfl⟩ := hunique request' result' h
      exact hno h.2.2
  · apply failure_reported hfalse
    rintro request' result' ⟨hparse', hserved', _⟩
    exact hnone request' result' hparse' hserved'

section Echo

/-- A method that returns its argument. -/
def echo : Method Bytes := ⟨some, .ok, some⟩

/-- Service `A` has the one method `B`. -/
def echoServer (request : RpcRequestProto) : RpcServer Bytes where
  services name := if name = text "A" then
    some ⟨fun method => if method = text "B" then some echo else none⟩ else none
  protobuf := EnvelopeWire.runtime [request] []

theorem echoServer_errorsSerialize (request : RpcRequestProto) :
    ErrorsSerialize (echoServer request) :=
  fun _ _ => ⟨_, rfl⟩

def echoRequest : RpcRequestProto := ⟨7, text "A", text "B", [1]⟩

def strayRequest : RpcRequestProto := ⟨7, text "C", text "B", [1]⟩

end Echo

theorem answers_once_echo :
    ∃ sent, ((echoServer echoRequest).handleRpcRequest (some (text "peer"))
        (EnvelopeWire.encodeRequest echoRequest)).run [] = .ok () ([] ++ [sent]) ∧
      Genuine (echoServer echoRequest) (text "peer") sent ∧
      (sent.response.success = true ↔ ∃ request result,
        Succeeds (echoServer echoRequest) (EnvelopeWire.encodeRequest echoRequest) request result) ∧
      ∀ request result,
        Succeeds (echoServer echoRequest) (EnvelopeWire.encodeRequest echoRequest) request result →
          sent.response.responseData = result :=
  answers_once (echoServer_errorsSerialize _) _ _ _

/-- The id of a request comes back exactly when it is 0 or the service call came
to a result. -/
theorem id_echoed_iff (hsafe : ErrorsSerialize server) (connection : Text) (data : Bytes)
    (log : List Sent) (request : RpcRequest)
    (hparse : parseRequest server.protobuf data = .ok request) :
    ∃ sent, (server.handleRpcRequest (some connection) data).run log = .ok () (log ++ [sent]) ∧
      Genuine server connection sent ∧
      (sent.response.requestId = request.requestId ↔
        request.requestId = 0 ∨ ∃ result, Served server request result) := by
  obtain ⟨sent, hrun, hgenuine, hcase⟩ := handleRpcRequest_cases hsafe connection data log
  refine ⟨sent, hrun, hgenuine, ?_⟩
  obtain ⟨request', result, hparse', hserved, hid, _⟩ | ⟨hnone, hid, _⟩ := hcase
  · obtain rfl := parse_unique hparse' hparse
    exact ⟨fun _ => .inr ⟨result, hserved⟩, fun _ => hid⟩
  · rw [hid]
    constructor
    · intro hzero
      exact .inl hzero.symm
    · rintro (hzero | ⟨result, hserved⟩)
      · exact hzero.symm
      · exact absurd hserved (hnone request result hparse)

theorem id_echoed_iff_echo :
    ∃ sent, ((echoServer echoRequest).handleRpcRequest (some (text "peer"))
        (EnvelopeWire.encodeRequest echoRequest)).run [] = .ok () ([] ++ [sent]) ∧
      Genuine (echoServer echoRequest) (text "peer") sent ∧
      (sent.response.requestId = (fromRequestProto echoRequest).requestId ↔
        (fromRequestProto echoRequest).requestId = 0 ∨
          ∃ result, Served (echoServer echoRequest) (fromRequestProto echoRequest) result) :=
  id_echoed_iff (echoServer_errorsSerialize _) _ _ _ (fromRequestProto echoRequest) (by decide)

/-- A request for a service that is not there has the id 7 and is answered under
the id 0. -/
theorem stray_request_loses_id :
    parseRequest (echoServer strayRequest).protobuf (EnvelopeWire.encodeRequest strayRequest) =
      .ok (fromRequestProto strayRequest) ∧
    (fromRequestProto strayRequest).requestId = 7 ∧
    ∃ sent, ((echoServer strayRequest).handleRpcRequest (some (text "peer"))
        (EnvelopeWire.encodeRequest strayRequest)).run [] = .ok () [sent] ∧
      Genuine (echoServer strayRequest) (text "peer") sent ∧ sent.response.requestId = 0 := by
  have hparse : parseRequest (echoServer strayRequest).protobuf
      (EnvelopeWire.encodeRequest strayRequest) = .ok (fromRequestProto strayRequest) := by decide
  have hservice : (echoServer strayRequest).services (fromRequestProto strayRequest).serviceName =
      none := by
    have hname : (fromRequestProto strayRequest).serviceName ≠ text "A" := by decide
    simp only [echoServer, if_neg hname]
  obtain ⟨sent, hrun, hgenuine, hcase⟩ :=
    handleRpcRequest_cases (echoServer_errorsSerialize strayRequest) (text "peer")
      (EnvelopeWire.encodeRequest strayRequest) []
  refine ⟨hparse, rfl, sent, hrun, hgenuine, ?_⟩
  obtain ⟨request, result, hparse', hserved, _⟩ | ⟨_, hid, _⟩ := hcase
  · obtain rfl := parse_unique hparse' hparse
    obtain ⟨service, _, _, _, hfound, _⟩ := hserved
    rw [hservice] at hfound
    cases hfound
  · exact hid

end Mprpc.ServerAnswers
