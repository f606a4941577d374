import Mprpc.EnvelopeWire
import Mprpc.RpcClient

namespace Mprpc.CallTruth

open Transport RpcProtocolHelper RpcClientStub

variable {σ ν : Type} (pb : Protobuf) (client : TcpClient) (request : RpcRequest)

/-- The request frame is sent, and a response frame is received and parsed. -/
def Received (response : RpcResponse) : Prop :=
  ∃ envelope c₁ c₂ data, serializeRequest pb request = .ok envelope ∧
    (TcpClient.send (FrameCodec.encode envelope)).run client = some (true, c₁) ∧
    TcpClient.receive.run c₁ = some (some data, c₂) ∧ parseResponse pb data = .ok response

/-- The calls on the socket come to an end, one way or the other. -/
def Ends : Prop :=
  ∀ envelope, serializeRequest pb request = .ok envelope →
    ∃ sent c₁, (TcpClient.send (FrameCodec.encode envelope)).run client = some (sent, c₁) ∧
      (sent = true → ∃ received c₂, TcpClient.receive.run c₁ = some (received, c₂))

variable {pb client request}

theorem received_steps {envelope : Bytes}
    (hserialize : serializeRequest pb request = .ok envelope) {response : RpcResponse}
    (h : Received pb client request response) :
    ∃ c₁ c₂ data, (TcpClient.send (FrameCodec.encode envelope)).run client = some (true, c₁) ∧
      TcpClient.receive.run c₁ = some (some data, c₂) ∧ parseResponse pb data = .ok response := by
  obtain ⟨envelope', c₁, c₂, data, hserialize', hsteps⟩ := h
  rw [hserialize] at hserialize'
  cases hserialize'
  exact ⟨c₁, c₂, data, hsteps⟩

theorem received_iff {envelope data : Bytes} {c₁ c₂ : TcpClient}
    (hserialize : serializeRequest pb request = .ok envelope)
    (hsend : (TcpClient.send (FrameCodec.encode envelope)).run client = some (true, c₁))
    (hreceive : TcpClient.receive.run c₁ = some (some data, c₂)) (response : RpcResponse) :
    Received pb client request response ↔ parseResponse pb data = .ok response := by
  constructor
  · intro h
    obtain ⟨_, _, _, hsend', hreceive', hparse⟩ := received_steps hserialize h
    rw [hsend] at hsend'
    cases hsend'
    rw [hreceive] at hreceive'
    cases hreceive'
    exact hparse
  · intro hparse
    exact ⟨envelope, c₁, c₂, data, hserialize, hsend, hreceive, hparse⟩

theorem received_unique {first second : RpcResponse} (h : Received pb client request first)
    (h' : Received pb client request second) : first = second := by
  obtain ⟨envelope, _, _, _, hserialize, hsend, hreceive, hparse⟩ := h
  rw [received_iff hserialize hsend hreceive, hparse] at h'
  exact Except.ok.inj h'

theorem error_iff {e : Text} (h : ∀ response, ¬ Received pb client request response) :
    ∀ response, (.error e : Except Text RpcResponse) = .ok response ↔
      Received pb client request response := by
  intro response
  constructor
  · intro herror
    cases herror
  · intro hreceived
    exact absurd hreceived (h response)

/-- `sendRpcRequest` returns the response that was received, and else throws. -/
theorem sendRpcRequest_exec (hends : Ends pb client request) {stub : RpcClientStub σ}
    (hclient : stub.tcpClient = some client) :
    ∃ r c, exec (sendRpcRequest pb request) stub = some (r, { stub with tcpClient := some c }) ∧
      ∀ response, r = .ok response ↔ Received pb client request response := by
  rw [exec_sendRpcRequest stub pb request hclient]
  cases hserialize : serializeRequest pb request with
  | error e =>
    have hstub : stub = { stub with tcpClient := some client } := by rw [← hclient]
    refine ⟨_, client, congrArg some (Prod.ext rfl hstub), ?_⟩
    apply error_iff
    rintro response ⟨envelope, _, _, _, h, _⟩
    rw [hserialize] at h
    cases h
  | ok envelope =>
    obtain ⟨sent, c₁, hsend, hreceive⟩ := hends envelope hserialize
    dsimp only
    rw [hsend, Option.bind_some]
    cases sent with
    | false =>
      refine ⟨_, c₁, rfl, ?_⟩
      apply error_iff
      intro response h
      obtain ⟨_, _, _, hsend', _⟩ := received_steps hserialize h
      rw [hsend] at hsend'
      cases hsend'
    | true =>
      obtain ⟨received, c₂, hreceive⟩ := hreceive rfl
      rw [if_pos rfl, hreceive]
      refine ⟨_, c₂, rfl, ?_⟩
      cases received with
      | none =>
        apply error_iff
        intro response h
        obtain ⟨_, _, _, hsend', hreceive', _⟩ := received_steps hserialize h
        rw [hsend] at hsend'
        cases hsend'
        rw [hreceive] at hreceive'
        cases hreceive'
      | some data =>
        intro response
        rw [received_iff hserialize hsend hreceive]
        exact responseOf_some

theorem ends_of_exec {stub stub' : RpcClientStub σ} {reply : Except Text RpcResponse}
    (hclient : stub.tcpClient = some client)
    (h : exec (sendRpcRequest pb request) stub = some (reply, stub')) : Ends pb client request := by
  intro envelope hserialize
  rw [exec_sendRpcRequest stub pb request hclient, hserialize] at h
  obtain ⟨⟨sent, c₁⟩, hsend, hrest⟩ := Option.bind_eq_some_iff.mp h
  refine ⟨sent, c₁, hsend, ?_⟩
  rintro rfl
  obtain ⟨⟨received, c₂⟩, hreceive, -⟩ := Option.map_eq_some_iff.mp hrest
  exact ⟨received, c₂, hreceive⟩

def requestOf (stub : RpcClientStub σ) (methodName : Text) (requestId : UInt64)
    (caller : Caller ν) : RpcRequest :=
  ⟨requestId, stub.serviceName, methodName, caller.serialized.2⟩

/-- The flag that comes out is true whatever the branches have set it to. -/
theorem exchange_exec (pb : Protobuf) (methodName : Text) (requestId : UInt64) (caller : Caller ν)
    (stub : RpcClientStub σ) :
    exec (exchange pb methodName requestId caller) stub =
      (exec (sendRpcRequest pb (requestOf stub methodName requestId caller)) stub).map fun p =>
        (p.1.map fun response => (true, caller.parseFromArray response.responseData), p.2) := by
  simp only [exchange, ite_self, exec_bind, exec_get, Option.bind_some, exec_pure]
  rw [← requestOf]
  cases exec (sendRpcRequest pb (requestOf stub methodName requestId caller)) stub with
  | none => rfl
  | some p =>
    obtain ⟨r, stub'⟩ := p
    cases r with
    | error e => rfl
    | ok response => rfl

theorem cleanup_exec (directory : Directory σ) (stub : RpcClientStub σ)
    (hmode : stub.useServiceDiscovery = false) :
    exec (cleanup directory) stub = some (.ok (), stub) := by
  simp only [cleanup, exec_bind, exec_get, Option.bind_some, hmode,
    Bool.false_eq_true, if_false, exec_pure]

theorem callMethod_exec {directory : Directory σ} {methodName : Text} {requestId : UInt64}
    {caller : Caller ν} {stub stub₁ : RpcClientStub σ}
    (hprepare : exec (prepare directory) stub = some (.ok true, stub₁))
    (hmode : stub₁.useServiceDiscovery = false) (hclient : stub₁.tcpClient = some client)
    (hends : Ends pb client (requestOf stub₁ methodName requestId caller)) :
    ∃ result value stub₂, exec (callMethod pb directory methodName requestId caller) stub =
        some (.ok (result, value), stub₂) ∧
      (result = true ↔ ∃ response,
        Received pb client (requestOf stub₁ methodName requestId caller) response) := by
  obtain ⟨r, c, hsend, hreceived⟩ := sendRpcRequest_exec hends hclient
  cases r with
  | error e =>
    refine ⟨false, none, { stub₁ with tcpClient := some c }, ?_, ?_⟩
    · simp only [callMethod, exec_bind, hprepare, Option.bind_some, Bool.not_true,
        Bool.false_eq_true, if_false, exec_tryCatch, exec_map, exchange_exec, hsend,
        Option.map_some, Except.map, exec_pure]
    · constructor
      · intro h
        cases h
      · rintro ⟨response, h⟩
        cases (hreceived response).mpr h
  | ok response =>
    refine ⟨true, caller.parseFromArray response.responseData,
      { stub₁ with tcpClient := some c }, ?_, ?_⟩
    · simp only [callMethod, exec_bind, hprepare, Option.bind_some, Bool.not_true,
        Bool.false_eq_true, if_false, exec_tryCatch, exec_map, exchange_exec, hsend,
        Option.map_some, Except.map, exec_pure]
      rw [cleanup_exec directory { stub₁ with tcpClient := some c } hmode]
      rfl
    · exact ⟨fun _ => ⟨response, (hreceived response).mp rfl⟩, fun _ => rfl⟩

theorem prepare_mode {directory : Directory σ} {stub stub₁ : RpcClientStub σ} {ready : Bool}
    (hmode : stub.useServiceDiscovery = false)
    (h : exec (prepare directory) stub = some (.ok ready, stub₁)) :
    stub₁.useServiceDiscovery = false := by
  cases hconnected : stub.connected with
  | true =>
    simp only [prepare, isConnected, exec_bind, exec_get, Option.bind_some, hmode, hconnected,
      exec_pure, Bool.false_eq_true, if_false, if_true] at h
    cases h
    exact hmode
  | false =>
    cases hdials : stub.dials with
    | nil =>
      have hdial : exec (dial : Action σ Bool) stub = none := by
        simp only [dial, exec_bind, exec_get, Option.bind_some, hdials]
        rfl
      simp only [prepare, isConnected, connect, exec_bind, exec_get, Option.bind_some, hmode,
        hconnected, exec_pure, Bool.false_eq_true, if_false, hdial] at h
      cases h
    | cons found dials =>
      cases found with
      | none =>
        simp only [prepare, isConnected, connect, dial, exec_bind, exec_get, exec_set,
          Option.bind_some, hmode, hconnected, hdials, exec_pure, Bool.false_eq_true, if_false] at h
        cases h
        rfl
      | some found =>
        simp only [prepare, isConnected, connect, dial, exec_bind, exec_get, exec_set, exec_modify,
          Option.bind_some, hmode, hconnected, hdials, exec_pure, Bool.false_eq_true, if_false,
          if_true] at h
        cases h
        rfl

/-- The request was serialised and sent, and a response came back that reports
success and carries a message. -/
def Succeeded (pb : Protobuf) (client : TcpClient) (request : RpcRequest) (caller : Caller ν) :
    Prop :=
  caller.serialized.1 = true ∧ ∃ response, Received pb client request response ∧
    response.success = true ∧ (caller.parseFromArray response.responseData).isSome = true

/-- The result of a connected call is true to what happened exactly when any
response received goes with a serialised request, reports success and parses. -/
theorem callMethod_truthful_iff (pb : Protobuf) (directory : Directory σ) (methodName : Text)
    (requestId : UInt64) (caller : Caller ν) (stub stub₁ : RpcClientStub σ) (client : TcpClient)
    (hmode : stub.useServiceDiscovery = false)
    (hprepare : exec (prepare directory) stub = some (.ok true, stub₁))
    (hclient : stub₁.tcpClient = some client)
    (hends : Ends pb client (requestOf stub₁ methodName requestId caller)) :
    ∃ result value stub₂, exec (callMethod pb directory methodName requestId caller) stub =
        some (.ok (result, value), stub₂) ∧
      ((result = true ↔
          Succeeded pb client (requestOf stub₁ methodName requestId caller) caller) ↔
        ∀ response, Received pb client (requestOf stub₁ methodName requestId caller) response →
          caller.serialized.1 = true ∧ response.success = true ∧
            (caller.parseFromArray response.responseData).isSome = true) := by
  obtain ⟨result, value, stub₂, hcall, hresult⟩ :=
    callMethod_exec hprepare (prepare_mode hmode hprepare) hclient hends
  refine ⟨result, value, stub₂, hcall, ?_⟩
  rw [hresult]
  constructor
  · intro htruth response hreceived
    obtain ⟨hserialized, response', hreceived', hsuccess, hparse⟩ := htruth.mp ⟨response, hreceived⟩
    obtain rfl := received_unique hreceived hreceived'
    exact ⟨hserialized, hsuccess, hparse⟩
  · intro hgood
    constructor
    · rintro ⟨response, hreceived⟩
      obtain ⟨hserialized, hsuccess, hparse⟩ := hgood response hreceived
      exact ⟨hserialized, response, hreceived, hsuccess, hparse⟩
    · rintro ⟨_, response, hreceived, _⟩
      exact ⟨response, hreceived⟩

section Refusal

/-- The server's answer to a call of a service that it does not have. -/
def refusal : RpcResponseProto := ⟨0, false, [], 8, text "Service not found: A"⟩

/-- A connection on which the answer comes in two pieces. -/
def refusedClient : TcpClient :=
  ⟨3, .connected, FrameCodec.encode (EnvelopeWire.encodeResponse refusal), [],
    [.ready 4, .ready 24], [.sent 15]⟩

def runtime : Protobuf := EnvelopeWire.runtime [] [refusal]

def noDirectory : Directory Unit := ⟨none, none⟩

def directStub : RpcClientStub Unit :=
  ⟨text "A", text "127.0.0.1", 8080, false, false, [], none, [some refusedClient], (), none⟩

/-- An argument of one byte, and a response message without fields. -/
def emptyCaller : Caller Unit := ⟨(true, [1]), fun data => if data.isEmpty then some () else none⟩

def directRequest : RpcRequest := ⟨7, text "A", text "B", [1]⟩

/-- The connection once the request is out, and once the answer is in. -/
def askedClient : TcpClient :=
  { refusedClient with
    outgoing := FrameCodec.encode (EnvelopeWire.encodeRequest (createRequestProto directRequest))
    sends := [] }

def answeredClient : TcpClient := { askedClient with incoming := [], recvs := [] }

theorem refusedClient_sends :
    (TcpClient.send (FrameCodec.encode (EnvelopeWire.encodeRequest
      (createRequestProto directRequest)))).run refusedClient = some (true, askedClient) := by
  decide

theorem askedClient_receives :
    TcpClient.receive.run askedClient =
      some (some (EnvelopeWire.encodeResponse refusal), answeredClient) := by
  decide

theorem refusal_received :
    Received runtime refusedClient directRequest (fromResponseProto refusal) :=
  ⟨_, _, _, _, rfl, refusedClient_sends, askedClient_receives, by decide⟩

theorem refusedClient_ends : Ends runtime refusedClient directRequest := by
  intro envelope h
  cases h
  exact ⟨true, askedClient, refusedClient_sends, fun _ => ⟨_, _, askedClient_receives⟩⟩

def connectedStub : RpcClientStub Unit :=
  { directStub with
    connected := true, tcpClient := some refusedClient, dials := [],
    peer := some (directStub.host, directStub.port) }

theorem directStub_prepares :
    exec (prepare noDirectory) directStub = some (.ok true, connectedStub) := rfl

end Refusal

theorem callMethod_truthful_iff_refusal :
    ∃ result value stub₂,
      exec (callMethod runtime noDirectory (text "B") 7 emptyCaller) directStub =
        some (.ok (result, value), stub₂) ∧
      ((result = true ↔ Succeeded runtime refusedClient directRequest emptyCaller) ↔
        ∀ response, Received runtime refusedClient directRequest response →
          emptyCaller.serialized.1 = true ∧ response.success = true ∧
            (emptyCaller.parseFromArray response.responseData).isSome = true) :=
  callMethod_truthful_iff runtime noDirectory (text "B") 7 emptyCaller directStub connectedStub
    refusedClient rfl directStub_prepares rfl refusedClient_ends

/-- A refused call is reported as successful: the empty payload of the refusal
parses as an empty message. -/
theorem refusal_reported_as_success :
    (∃ value stub₂, exec (callMethod runtime noDirectory (text "B") 7 emptyCaller) directStub =
      some (.ok (true, value), stub₂)) ∧
    Received runtime refusedClient directRequest (fromResponseProto refusal) ∧
    ¬ Succeeded runtime refusedClient directRequest emptyCaller := by
  have hends : Ends runtime refusedClient (requestOf connectedStub (text "B") 7 emptyCaller) :=
    refusedClient_ends
  obtain ⟨result, value, stub₂, hcall, hresult⟩ :=
    callMethod_exec directStub_prepares rfl rfl hends
  obtain rfl := hresult.mpr ⟨_, refusal_received⟩
  refine ⟨⟨value, stub₂, hcall⟩, refusal_received, ?_⟩
  rintro ⟨_, response, hreceived, hsuccess, _⟩
  obtain rfl := received_unique hreceived refusal_received
  cases hsuccess

end Mprpc.CallTruth
