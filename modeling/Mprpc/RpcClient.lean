import Mprpc.FrameCodec
import Mprpc.LoadBalancer
import Mprpc.RpcProtocolHelper
import Mprpc.TcpClient

namespace Mprpc

open Transport RpcProtocolHelper

/-- The registry and the load balancer behind a stub, which share a state. Either
pointer can be null. -/
structure Directory (σ : Type) where
  discoverService : Option (Text → σ → Except Text (List ServiceInstance) × σ)
  loadBalancer : Option (LoadBalancer σ)

/-- `dials` is what the coming attempts to connect meet: a refusal, or a socket
with the outcomes of the calls on it. `peer` is the address that the socket of
`tcpClient` has been connected to. -/
structure RpcClientStub (σ : Type) where
  serviceName : Text
  host : Text
  port : UInt16
  connected : Bool
  useServiceDiscovery : Bool
  currentInstanceId : Text
  tcpClient : Option TcpClient
  dials : List (Option TcpClient)
  directory : σ
  peer : Option (Text × UInt16)

/-- What the caller passes in besides the names: the result of
`SerializeToString` on the request, and `ParseFromArray` of the response. -/
structure Caller (ν : Type) where
  serialized : Bool × Bytes
  parseFromArray : Bytes → Option ν

namespace RpcClientStub

variable {σ ν : Type}

/-- A `std::runtime_error` carries its text; the inner option is empty while a
socket loop still runs. -/
abbrev Action (σ : Type) := ExceptT Text (StateT (RpcClientStub σ) Option)

def isConnected : Action σ Bool := return (← get).connected

/-- A new `TcpClientImpl` and its `connect`. -/
def dial : Action σ Bool := do
  let stub ← get
  match stub.dials with
  | [] => ExceptT.lift (fun _ => none)
  | none :: dials =>
    set { stub with
      tcpClient := some ⟨-1, .disconnected, [], [], [], []⟩, dials := dials, peer := none }
    return false
  | some client :: dials =>
    set { stub with
      tcpClient := some { client with state := .connected }, dials := dials,
      peer := some (stub.host, stub.port) }
    return true

def connect : Action σ Bool := do
  if ← isConnected then return true
  if ← dial then
    modify fun stub => { stub with connected := true }
    return true
  else return false

def disconnect : Action σ Unit :=
  modify fun stub => { stub with tcpClient := none, connected := false, peer := none }

def connectToInstance (inst : ServiceInstance) : Action σ Bool := do
  modify fun stub => { stub with host := inst.host, port := inst.port }
  if ← dial then
    modify fun stub => { stub with connected := true }
    return true
  else return false

def onDirectory {α : Type} (f : σ → α × σ) : Action σ α := do
  let stub ← get
  let (a, directory) := f stub.directory
  set { stub with directory := directory }
  return a

def onClient {α : Type} (client : TcpClient) (x : TcpClient.Action α) : Action σ (α × TcpClient) :=
  ExceptT.lift do
    let (a, client) ← x.run client
    modify fun stub => { stub with tcpClient := some client }
    return (a, client)

def orThrow {α : Type} : Except Text α → Action σ α
  | .ok a => return a
  | .error e => throw e

def selectServiceInstance (directory : Directory σ) : Action σ ServiceInstance := do
  match directory.discoverService with
  | none => throw (text "Rpc_Client.cpp::Service registry not initialized")
  | some discoverService =>
    let stub ← get
    let instances ← orThrow (← onDirectory (discoverService stub.serviceName))
    if instances.isEmpty then
      throw (text "Rpc_Client.cpp::No available service instances for: " ++ stub.serviceName)
    match directory.loadBalancer with
    | none =>
      match instances.find? (·.isHealthy) with
      | some inst => return inst
      | none =>
        throw (text "Rpc_Client.cpp::No healthy service instances for: " ++ stub.serviceName)
    | some loadBalancer => orThrow (← onDirectory (loadBalancer.select instances))

def sendRpcRequest (pb : Protobuf) (request : RpcRequest) : Action σ RpcResponse := do
  let stub ← get
  match stub.tcpClient with
  | none => throw (text "Rpc_Client.cpp::Client not initialized")
  | some client =>
    match serializeRequest pb request with
    | .error e => throw (text "Rpc_Client.cpp::Failed to serialize request: " ++ e)
    | .ok requestData =>
      let (sent, client) ← onClient client (TcpClient.send (FrameCodec.encode requestData))
      if !sent then throw (text "Rpc_Client.cpp::Failed to send request")
      let (received, _) ← onClient client TcpClient.receive
      match received with
      | none => throw (text "Failed to receive response from server")
      | some responseData =>
        match parseResponse pb responseData with
        | .error e => throw (text "Rpc_Client.cpp::Failed to parse response: " ++ e)
        | .ok response => return response

/-- Up to the `try`: with a directory the stub changes to the selected instance,
without one it connects if it is not connected. A null balancer is dereferenced
here, from where no call comes back. -/
def prepare (directory : Directory σ) : Action σ Bool := do
  if (← get).useServiceDiscovery then
    let inst ← selectServiceInstance directory
    let stub ← get
    if !stub.connected || stub.currentInstanceId ≠ inst.getId then
      disconnect
      if !(← connectToInstance inst) then return false
      modify fun stub => { stub with currentInstanceId := inst.getId }
    match directory.loadBalancer with
    | none => ExceptT.lift (fun _ => none)
    | some loadBalancer =>
      if loadBalancer.getName = text "LeastConnection" then
        let stub ← get
        onDirectory fun s => ((), loadBalancer.updateStats stub.currentInstanceId true s)
    return true
  else if ← isConnected then return true
  else connect

/-- The body of the `try`. The flag is set on every branch and once more at the
end; the second component is what was parsed into the caller's response. -/
def exchange (pb : Protobuf) (methodName : Text) (requestId : UInt64) (caller : Caller ν) :
    Action σ (Bool × Option ν) := do
  let stub ← get
  let mut result := false
  if !caller.serialized.1 then result := false
  let response ← sendRpcRequest pb
    { requestId := requestId
      serviceName := stub.serviceName
      methodName := methodName
      requestData := caller.serialized.2 }
  if !response.success then result := false
  let value := caller.parseFromArray response.responseData
  if value.isNone then result := false
  result := true
  return (result, value)

def cleanup (directory : Directory σ) : Action σ Unit := do
  let stub ← get
  if stub.useServiceDiscovery then
    match directory.loadBalancer with
    | none => return ()
    | some loadBalancer =>
      if loadBalancer.getName = text "LeastConnection" && !stub.currentInstanceId.isEmpty then
        onDirectory fun s => ((), loadBalancer.updateStats stub.currentInstanceId false s)

/-- The request id is read off the clock. -/
def callMethod (pb : Protobuf) (directory : Directory σ) (methodName : Text) (requestId : UInt64)
    (caller : Caller ν) : Action σ (Bool × Option ν) := do
  if !(← prepare directory) then return (false, none)
  let outcome ← tryCatch (some <$> exchange pb methodName requestId caller) (fun _ => return none)
  match outcome with
  | none => return (false, none)
  | some outcome =>
    cleanup directory
    return outcome

section Exec

/-- Run an action on a stub: what it returns or throws, and the stub after it. -/
def exec {α : Type} (x : Action σ α) (stub : RpcClientStub σ) :
    Option (Except Text α × RpcClientStub σ) := x.run.run stub

variable {α β : Type} (stub : RpcClientStub σ)

theorem exec_pure (a : α) : exec (pure a : Action σ α) stub = some (.ok a, stub) := rfl

theorem exec_get : exec (get : Action σ (RpcClientStub σ)) stub = some (.ok stub, stub) := rfl

theorem exec_modify (f : RpcClientStub σ → RpcClientStub σ) :
    exec (modify f : Action σ Unit) stub = some (.ok (), f stub) := rfl

theorem exec_set (stub' : RpcClientStub σ) :
    exec (set stub' : Action σ Unit) stub = some (.ok (), stub') := rfl

theorem exec_bind (x : Action σ α) (f : α → Action σ β) :
    exec (x >>= f) stub = (exec x stub).bind fun p => match p.1 with
      | .ok a => exec (f a) p.2
      | .error e => some (.error e, p.2) := by
  change (x.run.run stub).bind _ = _
  unfold exec
  congr 1
  funext p
  obtain ⟨r, s⟩ := p
  cases r with
  | ok a => rfl
  | error e => rfl

theorem exec_tryCatch (x : Action σ α) (handler : Text → Action σ α) :
    exec (tryCatch x handler) stub = (exec x stub).bind fun p => match p.1 with
      | .ok a => some (.ok a, p.2)
      | .error e => exec (handler e) p.2 := by
  change (x.run.run stub).bind _ = _
  unfold exec
  congr 1
  funext p
  obtain ⟨r, s⟩ := p
  cases r with
  | ok a => rfl
  | error e => rfl

theorem exec_map (f : α → β) (x : Action σ α) :
    exec (f <$> x) stub = (exec x stub).map fun p => (p.1.map f, p.2) := by
  rw [← bind_pure_comp, exec_bind]
  cases exec x stub with
  | none => rfl
  | some p =>
    obtain ⟨r, s⟩ := p
    cases r with
    | ok a => rfl
    | error e => rfl

theorem exec_onClient {client : TcpClient} (x : TcpClient.Action α) :
    exec (onClient client x) stub =
      (x.run client).map fun p => (.ok p, { stub with tcpClient := some p.2 }) := by
  unfold exec onClient
  cases x.run client <;> simp

/-- What `sendRpcRequest` makes of what `receive` comes back with. -/
def responseOf (pb : Protobuf) : Option Bytes → Except Text RpcResponse
  | none => .error (text "Failed to receive response from server")
  | some responseData =>
    (parseResponse pb responseData).mapError
      (text "Rpc_Client.cpp::Failed to parse response: " ++ ·)

theorem responseOf_some {pb : Protobuf} {data : Bytes} {response : RpcResponse} :
    responseOf pb (some data) = .ok response ↔ parseResponse pb data = .ok response := by
  cases h : parseResponse pb data <;> simp [responseOf, h, Except.mapError]

theorem exec_sendRpcRequest (pb : Protobuf) (request : RpcRequest) {client : TcpClient}
    (hclient : stub.tcpClient = some client) :
    exec (sendRpcRequest pb request) stub =
      match serializeRequest pb request with
      | .error e => some (.error (text "Rpc_Client.cpp::Failed to serialize request: " ++ e), stub)
      | .ok requestData =>
        ((TcpClient.send (FrameCodec.encode requestData)).run client).bind fun p =>
          if p.1 then
            (TcpClient.receive.run p.2).map fun q =>
              (responseOf pb q.1, { stub with tcpClient := some q.2 })
          else
            some (.error (text "Rpc_Client.cpp::Failed to send request"),
              { stub with tcpClient := some p.2 }) := by
  simp only [sendRpcRequest, exec_bind, exec_get, Option.bind_some, hclient]
  cases serializeRequest pb request with
  | error e => rfl
  | ok requestData =>
    dsimp only
    rw [exec_bind, exec_onClient]
    cases (TcpClient.send (FrameCodec.encode requestData)).run client with
    | none => rfl
    | some p =>
      obtain ⟨sent, client₁⟩ := p
      cases sent with
      | false => rfl
      | true =>
        simp only [Option.map_some, Option.bind_some, exec_bind, exec_onClient,
          Bool.not_true, Bool.false_eq_true, if_false, if_true]
        cases TcpClient.receive.run client₁ with
        | none => rfl
        | some q =>
          obtain ⟨received, client₂⟩ := q
          cases received with
          | none => rfl
          | some responseData =>
            simp only [Option.map_some, Option.bind_some, responseOf]
            cases parseResponse pb responseData <;> rfl

end Exec

end RpcClientStub

end Mprpc
