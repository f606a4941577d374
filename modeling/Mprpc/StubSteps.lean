import Mprpc.CallTruth

namespace Mprpc.StubSteps

open Transport RpcProtocolHelper RpcClientStub CallTruth

variable {σ ν α : Type} {stub stub' : RpcClientStub σ}

/-- The stub once an attempt to connect has been refused, and once it has gone
through. -/
def refused (stub : RpcClientStub σ) (dials : List (Option TcpClient)) : RpcClientStub σ :=
  { stub with tcpClient := some ⟨-1, .disconnected, [], [], [], []⟩, dials := dials, peer := none }

def opened (stub : RpcClientStub σ) (client : TcpClient) (dials : List (Option TcpClient)) :
    RpcClientStub σ :=
  { stub with
    connected := true, tcpClient := some { client with state := .connected }, dials := dials,
    peer := some (stub.host, stub.port) }

def aimed (stub : RpcClientStub σ) (inst : ServiceInstance) : RpcClientStub σ :=
  { stub with
    connected := false, tcpClient := none, peer := none, host := inst.host, port := inst.port }

/-- What becomes of the directory when a call has its connection. -/
def counted (loadBalancer : LoadBalancer σ) (start : Bool) (stub : RpcClientStub σ) :
    RpcClientStub σ :=
  if loadBalancer.getName = text "LeastConnection" then
    { stub with
      directory := loadBalancer.updateStats stub.currentInstanceId start stub.directory }
  else stub

theorem counted_kept (loadBalancer : LoadBalancer σ) (start : Bool) (stub : RpcClientStub σ) :
    ∃ d, counted loadBalancer start stub = { stub with directory := d } := by
  unfold counted
  split
  · exact ⟨_, rfl⟩
  · exact ⟨_, rfl⟩

theorem exec_throw (e : Text) : exec (throw e : Action σ α) stub = some (.error e, stub) := rfl

theorem exec_orThrow (r : Except Text α) :
    exec (orThrow r : Action σ α) stub = some (r, stub) := by
  cases r <;> rfl

theorem exec_onDirectory (f : σ → α × σ) :
    exec (onDirectory f) stub =
      some (.ok (f stub.directory).1, { stub with directory := (f stub.directory).2 }) := rfl

theorem exec_isConnected : exec (isConnected : Action σ Bool) stub =
    some (.ok stub.connected, stub) := rfl

theorem exec_disconnect : exec (disconnect : Action σ Unit) stub =
    some (.ok (), { stub with tcpClient := none, connected := false, peer := none }) := rfl

theorem exec_dial : exec (dial : Action σ Bool) stub =
    match stub.dials with
    | [] => none
    | none :: dials => some (.ok false, refused stub dials)
    | some client :: dials =>
      some (.ok true, { opened stub client dials with connected := stub.connected }) := by
  simp only [dial, exec_bind, exec_get, Option.bind_some]
  cases stub.dials with
  | nil => rfl
  | cons found dials => cases found <;> rfl

theorem exec_connect : exec (connect : Action σ Bool) stub =
    if stub.connected then some (.ok true, stub)
    else match stub.dials with
      | [] => none
      | none :: dials => some (.ok false, refused stub dials)
      | some client :: dials => some (.ok true, opened stub client dials) := by
  simp only [connect, exec_bind, exec_isConnected, Option.bind_some]
  cases hc : stub.connected with
  | true => rfl
  | false =>
    simp only [Bool.false_eq_true, if_false, exec_bind, exec_dial]
    cases stub.dials with
    | nil => rfl
    | cons found dials => cases found <;> rfl

/-- All that `connect` can do. -/
inductive Connects (stub : RpcClientStub σ) : Except Text Bool → RpcClientStub σ → Prop
  | stays : stub.connected = true → Connects stub (.ok true) stub
  | fails {dials : List (Option TcpClient)} : stub.connected = false →
      stub.dials = none :: dials → Connects stub (.ok false) (refused stub dials)
  | opens {client : TcpClient} {dials : List (Option TcpClient)} : stub.connected = false →
      stub.dials = some client :: dials → Connects stub (.ok true) (opened stub client dials)

theorem connects_of_exec {r : Except Text Bool}
    (h : exec (connect : Action σ Bool) stub = some (r, stub')) : Connects stub r stub' := by
  rw [exec_connect] at h
  cases hc : stub.connected with
  | true =>
    rw [hc] at h
    cases h
    exact .stays hc
  | false =>
    rw [hc, if_neg Bool.false_ne_true] at h
    cases hdials : stub.dials with
    | nil =>
      rw [hdials] at h
      cases h
    | cons found dials =>
      rw [hdials] at h
      cases found with
      | none =>
        cases h
        exact .fails hc hdials
      | some client =>
        cases h
        exact .opens hc hdials

theorem exec_connectToInstance (inst : ServiceInstance) :
    exec (connectToInstance inst : Action σ Bool) stub =
      match stub.dials with
      | [] => none
      | none :: dials =>
        some (.ok false, refused { stub with host := inst.host, port := inst.port } dials)
      | some client :: dials =>
        some (.ok true,
          opened { stub with host := inst.host, port := inst.port } client dials) := by
  simp only [connectToInstance, exec_bind, exec_modify, Option.bind_some, exec_dial]
  cases stub.dials with
  | nil => rfl
  | cons found dials => cases found <;> rfl

section Selection

variable {directory : Directory σ}
  {discoverService : Text → σ → Except Text (List ServiceInstance) × σ}

theorem exec_select_unset (h : directory.discoverService = none) :
    exec (selectServiceInstance directory) stub =
      some (.error (text "Rpc_Client.cpp::Service registry not initialized"), stub) := by
  simp only [selectServiceInstance, h, exec_throw]

/-- The instance comes from the balancer, or without one from the front of the
healthy ones, and only the directory changes. -/
theorem exec_select (h : directory.discoverService = some discoverService) :
    exec (selectServiceInstance directory) stub =
      match discoverService stub.serviceName stub.directory with
      | (.error e, d) => some (.error e, { stub with directory := d })
      | (.ok instances, d) =>
        if instances.isEmpty then
          some (.error (text "Rpc_Client.cpp::No available service instances for: " ++
            stub.serviceName), { stub with directory := d })
        else match directory.loadBalancer with
          | none => match instances.find? (·.isHealthy) with
            | some inst => some (.ok inst, { stub with directory := d })
            | none => some (.error (text "Rpc_Client.cpp::No healthy service instances for: " ++
              stub.serviceName), { stub with directory := d })
          | some loadBalancer => some ((loadBalancer.select instances d).1,
            { stub with directory := (loadBalancer.select instances d).2 }) := by
  simp only [selectServiceInstance, h, exec_bind, exec_get, exec_onDirectory, exec_orThrow,
    Option.bind_some]
  obtain ⟨r, d⟩ := discoverService stub.serviceName stub.directory
  cases r with
  | error e => rfl
  | ok instances =>
    dsimp only
    cases instances with
    | nil => rfl
    | cons inst instances =>
      cases directory.loadBalancer with
      | none =>
        simp only [List.isEmpty_cons, Bool.false_eq_true, if_false]
        cases (inst :: instances).find? (·.isHealthy) <;> rfl
      | some loadBalancer =>
        simp only [List.isEmpty_cons, Bool.false_eq_true, if_false, exec_bind, Option.bind_some,
          exec_onDirectory, exec_orThrow]

theorem select_kept {r : Except Text ServiceInstance}
    (h : exec (selectServiceInstance directory) stub = some (r, stub')) :
    ∃ d, stub' = { stub with directory := d } := by
  cases hd : directory.discoverService with
  | none =>
    rw [exec_select_unset hd] at h
    cases h
    exact ⟨_, rfl⟩
  | some discoverService =>
    rw [exec_select hd] at h
    split at h
    · cases h
      exact ⟨_, rfl⟩
    · split at h
      · cases h
        exact ⟨_, rfl⟩
      · split at h
        · split at h
          · cases h
            exact ⟨_, rfl⟩
          · cases h
            exact ⟨_, rfl⟩
        · cases h
          exact ⟨_, rfl⟩

end Selection

/-- All that the first part of a call can do. -/
inductive Prepares (directory : Directory σ) (stub : RpcClientStub σ) :
    Except Text Bool → RpcClientStub σ → Prop
  | throws {e : Text} {d : σ} : stub.useServiceDiscovery →
      exec (selectServiceInstance directory) stub = some (.error e, { stub with directory := d }) →
      Prepares directory stub (.error e) { stub with directory := d }
  | reuses {inst : ServiceInstance} {d : σ} {loadBalancer : LoadBalancer σ} :
      stub.useServiceDiscovery →
      exec (selectServiceInstance directory) stub = some (.ok inst, { stub with directory := d }) →
      stub.connected → stub.currentInstanceId = inst.getId →
      directory.loadBalancer = some loadBalancer →
      Prepares directory stub (.ok true) (counted loadBalancer true { stub with directory := d })
  | switchFails {inst : ServiceInstance} {d : σ} {dials : List (Option TcpClient)} :
      stub.useServiceDiscovery →
      exec (selectServiceInstance directory) stub = some (.ok inst, { stub with directory := d }) →
      ¬(stub.connected ∧ stub.currentInstanceId = inst.getId) → stub.dials = none :: dials →
      Prepares directory stub (.ok false) (refused (aimed { stub with directory := d } inst) dials)
  | switches {inst : ServiceInstance} {d : σ} {client : TcpClient}
      {dials : List (Option TcpClient)} {loadBalancer : LoadBalancer σ} :
      stub.useServiceDiscovery →
      exec (selectServiceInstance directory) stub = some (.ok inst, { stub with directory := d }) →
      ¬(stub.connected ∧ stub.currentInstanceId = inst.getId) →
      stub.dials = some client :: dials → directory.loadBalancer = some loadBalancer →
      Prepares directory stub (.ok true) (counted loadBalancer true
        { opened (aimed { stub with directory := d } inst) client dials with
          currentInstanceId := inst.getId })
  | connected : stub.useServiceDiscovery = false → stub.connected →
      Prepares directory stub (.ok true) stub
  | connectFails {dials : List (Option TcpClient)} : stub.useServiceDiscovery = false →
      stub.connected = false → stub.dials = none :: dials →
      Prepares directory stub (.ok false) (refused stub dials)
  | connects {client : TcpClient} {dials : List (Option TcpClient)} :
      stub.useServiceDiscovery = false → stub.connected = false →
      stub.dials = some client :: dials →
      Prepares directory stub (.ok true) (opened stub client dials)

theorem exec_started (directory : Directory σ) (stub : RpcClientStub σ) :
    exec (do
      match directory.loadBalancer with
      | none => ExceptT.lift (fun _ => none)
      | some loadBalancer =>
        if loadBalancer.getName = text "LeastConnection" then
          let stub ← get
          onDirectory fun s => ((), loadBalancer.updateStats stub.currentInstanceId true s)
      return true : Action σ Bool) stub =
      directory.loadBalancer.map fun loadBalancer =>
        (.ok true, counted loadBalancer true stub) := by
  cases directory.loadBalancer with
  | none => rfl
  | some loadBalancer =>
    by_cases hn : loadBalancer.getName = text "LeastConnection"
    · simp only [hn, if_true, exec_bind, exec_get, Option.bind_some, exec_onDirectory, exec_pure,
        Option.map_some, counted]
    · simp only [hn, if_false, exec_pure, Option.map_some, counted]

theorem exec_prepare_discovery {directory : Directory σ} (hmode : stub.useServiceDiscovery) :
    exec (prepare directory) stub = (exec (selectServiceInstance directory) stub).bind fun p =>
      match p.1 with
      | .error e => some (.error e, p.2)
      | .ok inst =>
        if !p.2.connected || p.2.currentInstanceId ≠ inst.getId then
          match p.2.dials with
          | [] => none
          | none :: dials => some (.ok false, refused (aimed p.2 inst) dials)
          | some client :: dials => directory.loadBalancer.map fun loadBalancer =>
            (.ok true, counted loadBalancer true
              { opened (aimed p.2 inst) client dials with currentInstanceId := inst.getId })
        else directory.loadBalancer.map fun loadBalancer =>
          (.ok true, counted loadBalancer true p.2) := by
  rw [prepare, exec_bind, exec_get, Option.bind_some]
  dsimp only
  rw [if_pos hmode, exec_bind]
  cases exec (selectServiceInstance directory) stub with
  | none => rfl
  | some p =>
    obtain ⟨r, stub₁⟩ := p
    cases r with
    | error e => rfl
    | ok inst =>
      rw [Option.bind_some, Option.bind_some]
      dsimp only
      rw [exec_bind, exec_get, Option.bind_some]
      dsimp only
      split
      · rw [exec_bind, exec_disconnect, Option.bind_some]
        dsimp only
        rw [exec_bind, exec_connectToInstance]
        dsimp only
        cases stub₁.dials with
        | nil => rfl
        | cons found dials =>
          cases found with
          | none => rfl
          | some client =>
            rw [Option.bind_some]
            dsimp only
            rw [Bool.not_true, if_neg Bool.false_ne_true, exec_bind, exec_modify, Option.bind_some]
            exact exec_started directory _
      · exact exec_started directory stub₁

theorem exec_prepare_direct {directory : Directory σ} (hmode : stub.useServiceDiscovery = false) :
    exec (prepare directory) stub = exec (connect : Action σ Bool) stub := by
  rw [prepare, exec_bind, exec_get, Option.bind_some]
  dsimp only
  rw [hmode, if_neg Bool.false_ne_true, exec_bind, exec_isConnected, Option.bind_some]
  cases hc : stub.connected with
  | true =>
    rw [exec_connect, hc]
    rfl
  | false => rfl

theorem prepares_of_exec {directory : Directory σ} {r : Except Text Bool}
    (h : exec (prepare directory) stub = some (r, stub')) : Prepares directory stub r stub' := by
  cases hmode : stub.useServiceDiscovery with
  | true =>
    rw [exec_prepare_discovery hmode] at h
    obtain ⟨⟨selected, stub₁⟩, hsel, h⟩ := Option.bind_eq_some_iff.mp h
    obtain ⟨d, rfl⟩ := select_kept hsel
    cases selected with
    | error e =>
      cases h
      exact .throws hmode hsel
    | ok inst =>
      dsimp only at h
      by_cases hsame : stub.connected ∧ stub.currentInstanceId = inst.getId
      · obtain ⟨hc, hid⟩ := hsame
        rw [if_neg (by simp [hc, hid])] at h
        obtain ⟨loadBalancer, hlb, h⟩ := Option.map_eq_some_iff.mp h
        cases h
        exact .reuses hmode hsel hc hid hlb
      · rw [if_pos (by simpa [imp_iff_not_or] using hsame)] at h
        cases hdials : stub.dials with
        | nil =>
          rw [hdials] at h
          cases h
        | cons found dials =>
          rw [hdials] at h
          cases found with
          | none =>
            cases h
            exact .switchFails hmode hsel hsame hdials
          | some client =>
            obtain ⟨loadBalancer, hlb, h⟩ := Option.map_eq_some_iff.mp h
            cases h
            exact .switches hmode hsel hsame hdials hlb
  | false =>
    rw [exec_prepare_direct hmode] at h
    cases connects_of_exec h with
    | stays hc => exact .connected hmode hc
    | fails hc hdials => exact .connectFails hmode hc hdials
    | opens hc hdials => exact .connects hmode hc hdials

/-- The rule for the first part of a call: a property that does not depend on the
directory has to hold of the stub, of a failed and of a done change to another
instance, and of what `connect` leaves. -/
theorem Prepares.invariant {P : RpcClientStub σ → Prop} {directory : Directory σ}
    {r : Except Text Bool} (hdir : ∀ s d, P s → P { s with directory := d }) (hstub : P stub)
    (hfails : stub.useServiceDiscovery → ∀ inst dials, P (refused (aimed stub inst) dials))
    (hswitches : stub.useServiceDiscovery → ∀ inst client dials,
      P { opened (aimed stub inst) client dials with currentInstanceId := inst.getId })
    (hconnect : stub.useServiceDiscovery = false → ∀ r' s, Connects stub r' s → P s)
    (h : Prepares directory stub r stub') : P stub' := by
  cases h with
  | @throws e d hmode hsel => exact hdir stub d hstub
  | reuses hmode hsel hc hid hlb =>
    obtain ⟨d, hcounted⟩ := counted_kept _ true _
    rw [hcounted]
    exact hdir stub d hstub
  | @switchFails inst d dials hmode hsel hsame hdials => exact hdir _ d (hfails hmode inst dials)
  | @switches inst _ client dials _ hmode hsel hsame hdials hlb =>
    obtain ⟨d, hcounted⟩ := counted_kept _ true _
    rw [hcounted]
    have hs := hdir _ d (hswitches hmode inst client dials)
    exact hs
  | connected hmode hc => exact hstub
  | connectFails hmode hc hdials => exact hconnect hmode _ _ (.fails hc hdials)
  | connects hmode hc hdials => exact hconnect hmode _ _ (.opens hc hdials)

/-- What the end of a call that has had a response does. -/
def cleaned (directory : Directory σ) (stub : RpcClientStub σ) : RpcClientStub σ :=
  match directory.loadBalancer with
  | none => stub
  | some loadBalancer =>
    if stub.useServiceDiscovery && !stub.currentInstanceId.isEmpty then
      counted loadBalancer false stub
    else stub

theorem cleaned_kept (directory : Directory σ) (stub : RpcClientStub σ) :
    ∃ d, cleaned directory stub = { stub with directory := d } := by
  unfold cleaned
  split
  · exact ⟨_, rfl⟩
  · split
    · exact counted_kept _ _ _
    · exact ⟨_, rfl⟩

theorem exec_cleanup (directory : Directory σ) :
    exec (cleanup directory) stub = some (.ok (), cleaned directory stub) := by
  rw [cleanup, exec_bind, exec_get, Option.bind_some]
  dsimp only [cleaned]
  cases directory.loadBalancer with
  | none => cases stub.useServiceDiscovery <;> rfl
  | some loadBalancer =>
    cases stub.useServiceDiscovery with
    | false => rfl
    | true =>
      by_cases hn : loadBalancer.getName = text "LeastConnection"
      · cases hid : stub.currentInstanceId.isEmpty <;> simp [hn, counted] <;> rfl
      · cases hid : stub.currentInstanceId.isEmpty <;> simp [hn, counted] <;> rfl

section Call

variable {pb : Protobuf} {directory : Directory σ} {methodName : Text} {requestId : UInt64}
variable {caller : Caller ν}

theorem exec_callMethod :
    exec (callMethod pb directory methodName requestId caller) stub =
      (exec (prepare directory) stub).bind fun p => match p.1 with
        | .error e => some (.error e, p.2)
        | .ok false => some (.ok (false, none), p.2)
        | .ok true =>
          (exec (sendRpcRequest pb (requestOf p.2 methodName requestId caller)) p.2).map fun q =>
            match q.1 with
            | .error _ => (.ok (false, none), q.2)
            | .ok response =>
              (.ok (true, caller.parseFromArray response.responseData), cleaned directory q.2) := by
  rw [callMethod, exec_bind]
  congr 1
  funext p
  obtain ⟨r, stub₁⟩ := p
  cases r with
  | error e => rfl
  | ok ready =>
    cases ready with
    | false => rfl
    | true =>
      dsimp only
      rw [Bool.not_true, if_neg Bool.false_ne_true, exec_bind, exec_tryCatch, exec_map,
        exchange_exec]
      cases exec (sendRpcRequest pb (requestOf stub₁ methodName requestId caller)) stub₁ with
      | none => rfl
      | some q =>
        obtain ⟨reply, stub₂⟩ := q
        cases reply with
        | error e => rfl
        | ok response =>
          simp only [Option.map_some, Option.bind_some, Except.map, exec_bind, exec_cleanup,
            exec_pure]

theorem sendRpcRequest_kept {request : RpcRequest} {reply : Except Text RpcResponse}
    (h : exec (sendRpcRequest pb request) stub = some (reply, stub')) :
    ∃ c, stub' = { stub with tcpClient := c } ∧
      ((∃ client, stub.tcpClient = some client) → ∃ client, c = some client) := by
  cases hclient : stub.tcpClient with
  | none =>
    simp only [sendRpcRequest, exec_bind, exec_get, Option.bind_some, hclient, exec_throw] at h
    cases h
    refine ⟨_, rfl, ?_⟩
    rintro ⟨client, hsome⟩
    cases hsome
  | some client =>
    rw [exec_sendRpcRequest stub pb request hclient] at h
    cases hs : serializeRequest pb request with
    | error e =>
      rw [hs] at h
      cases h
      exact ⟨_, rfl, fun _ => ⟨client, hclient⟩⟩
    | ok envelope =>
      rw [hs] at h
      obtain ⟨p, -, h⟩ := Option.bind_eq_some_iff.mp h
      split at h
      · obtain ⟨q, -, h⟩ := Option.map_eq_some_iff.mp h
        cases h
        exact ⟨_, rfl, fun _ => ⟨_, rfl⟩⟩
      · cases h
        exact ⟨_, rfl, fun _ => ⟨_, rfl⟩⟩

/-- The ways a call can end. -/
inductive CallEnds (pb : Protobuf) (directory : Directory σ) (methodName : Text)
    (requestId : UInt64) (caller : Caller ν) (stub : RpcClientStub σ) : RpcClientStub σ → Prop
  | throws {e : Text} {stub' : RpcClientStub σ} : Prepares directory stub (.error e) stub' →
      CallEnds pb directory methodName requestId caller stub stub'
  | unready {stub' : RpcClientStub σ} : Prepares directory stub (.ok false) stub' →
      CallEnds pb directory methodName requestId caller stub stub'
  | fails {stub₁ stub' : RpcClientStub σ} {e : Text} :
      exec (prepare directory) stub = some (.ok true, stub₁) →
      exec (sendRpcRequest pb (requestOf stub₁ methodName requestId caller)) stub₁ =
        some (.error e, stub') →
      CallEnds pb directory methodName requestId caller stub stub'
  | answered {stub₁ stub₂ : RpcClientStub σ} {response : RpcResponse} :
      exec (prepare directory) stub = some (.ok true, stub₁) →
      exec (sendRpcRequest pb (requestOf stub₁ methodName requestId caller)) stub₁ =
        some (.ok response, stub₂) →
      CallEnds pb directory methodName requestId caller stub (cleaned directory stub₂)

theorem callEnds_of_exec {r : Except Text (Bool × Option ν)}
    (h : exec (callMethod pb directory methodName requestId caller) stub = some (r, stub')) :
    CallEnds pb directory methodName requestId caller stub stub' := by
  rw [exec_callMethod] at h
  obtain ⟨⟨ready, stub₁⟩, hprepare, h⟩ := Option.bind_eq_some_iff.mp h
  have hp := prepares_of_exec hprepare
  cases ready with
  | error e =>
    cases h
    exact .throws hp
  | ok ready =>
    cases ready with
    | false =>
      cases h
      exact .unready hp
    | true =>
      obtain ⟨⟨reply, stub₂⟩, hsend, h⟩ := Option.map_eq_some_iff.mp h
      cases reply with
      | error e =>
        cases h
        exact .fails hprepare hsend
      | ok response =>
        cases h
        exact .answered hprepare hsend

/-- The rule for calls, for a property that does not depend on the directory. -/
theorem CallEnds.invariant {P : RpcClientStub σ → Prop}
    (hdir : ∀ s d, P s → P { s with directory := d })
    (hprepare : ∀ r s, Prepares directory stub r s → P s)
    (hsend : ∀ s reply s', exec (prepare directory) stub = some (.ok true, s) →
      exec (sendRpcRequest pb (requestOf s methodName requestId caller)) s = some (reply, s') →
      P s')
    (h : CallEnds pb directory methodName requestId caller stub stub') : P stub' := by
  cases h with
  | throws hp => exact hprepare _ _ hp
  | unready hp => exact hprepare _ _ hp
  | fails hp hs => exact hsend _ _ _ hp hs
  | @answered _ stub₂ _ hp hs =>
    obtain ⟨d, hcleaned⟩ := cleaned_kept directory stub₂
    rw [hcleaned]
    exact hdir _ d (hsend _ _ _ hp hs)

end Call

/-- What a program does with a stub. -/
inductive Op (σ ν : Type)
  | connect
  | disconnect
  | callMethod (pb : Protobuf) (directory : Directory σ) (methodName : Text) (requestId : UInt64)
      (caller : Caller ν)

/-- The stub once the operation has come back, whether it returned or threw. -/
def step (stub : RpcClientStub σ) : Op σ ν → Option (RpcClientStub σ)
  | .connect => (exec (connect : Action σ Bool) stub).map Prod.snd
  | .disconnect => (exec (disconnect : Action σ Unit) stub).map Prod.snd
  | .callMethod pb directory methodName requestId caller =>
    (exec (callMethod pb directory methodName requestId caller) stub).map Prod.snd

end Mprpc.StubSteps
