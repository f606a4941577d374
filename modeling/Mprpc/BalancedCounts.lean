import Mprpc.LoadBalancers
import Mprpc.StubSteps

namespace Mprpc.BalancedCounts

open Transport RpcProtocolHelper RpcClientStub CallTruth StubSteps
open Library.Transition

variable {ρ ν : Type}

/-- A least-connection balancer next to the state of a registry. -/
def leastConnection : LoadBalancer (ρ × LeastConnectionLoadBalancer) where
  select instances s :=
    let (r, lb) := s.2.select instances
    (r, (s.1, lb))
  getName := LeastConnectionLoadBalancer.getName
  updateStats instanceId start s := (s.1, s.2.updateStats instanceId start)

/-- What a registry has to say on a service. -/
abbrev Discovery (ρ : Type) := Text → ρ → Except Text (List ServiceInstance) × ρ

def directoryOf (discover : Discovery ρ) : Directory (ρ × LeastConnectionLoadBalancer) where
  discoverService := some fun serviceName s =>
    let (r, registry) := discover serviceName s.1
    (r, (registry, s.2))
  loadBalancer := some leastConnection

abbrev Stub (ρ : Type) := RpcClientStub (ρ × LeastConnectionLoadBalancer)

def countOf (stub : Stub ρ) (id : Text) : Int := stub.directory.2.connectionCounts.value id

/-- No instance has a connection in flight. -/
def Idle (stub : Stub ρ) : Prop := ∀ id, countOf stub id = 0

/-- One call: the program's part, and what the registry answers during it. -/
structure Call (ρ ν : Type) where
  pb : Protobuf
  discover : Discovery ρ
  methodName : Text
  requestId : UInt64
  caller : Caller ν

def callStep (stub : Stub ρ) (call : Call ρ ν) : Option (Stub ρ) :=
  step stub (.callMethod call.pb (directoryOf call.discover) call.methodName call.requestId
    call.caller)

/-- If the call gets a connection, then a response comes back on it and parses. -/
def Answered (stub : Stub ρ) (call : Call ρ ν) : Prop :=
  ∀ stub₁ client, exec (prepare (directoryOf call.discover)) stub = some (.ok true, stub₁) →
    stub₁.tcpClient = some client →
    Ends call.pb client (requestOf stub₁ call.methodName call.requestId call.caller) →
    ∃ response,
      CallTruth.Received call.pb client (requestOf stub₁ call.methodName call.requestId call.caller)
        response

/-- The stubs the claim is about. -/
structure Discovering (stub : Stub ρ) : Prop where
  mode : stub.useServiceDiscovery = true
  client : stub.connected = true → ∃ client, stub.tcpClient = some client

section Selection

variable {lb : LeastConnectionLoadBalancer} {instances : List ServiceInstance}

theorem select_value (id : Text) :
    (lb.select instances).2.connectionCounts.value id = lb.connectionCounts.value id := by
  by_cases h : ∃ inst ∈ instances, inst.isHealthy
  · obtain ⟨inst, hi, hh⟩ := h
    obtain ⟨healthy, -, hsel⟩ := selectHealthy_ok LeastConnectionLoadBalancer.choose hi hh lb
    rw [LeastConnectionLoadBalancer.select, hsel]
    exact Numbers.value_ensureAll _ _ _
  · have hall : ∀ inst ∈ instances, inst.isHealthy = false := by simpa using h
    obtain ⟨e, hsel⟩ := selectHealthy_error LeastConnectionLoadBalancer.choose hall lb
    rw [LeastConnectionLoadBalancer.select, hsel]

theorem start_value (instanceId id : Text) :
    (lb.updateStats instanceId true).connectionCounts.value id =
      if id = instanceId then wrapInt (lb.connectionCounts.value instanceId + 1)
      else lb.connectionCounts.value id := by
  simp only [LeastConnectionLoadBalancer.updateStats, if_true, Numbers.value_set,
    Numbers.value_ensure]

theorem end_value (instanceId id : Text) (h : 0 < lb.connectionCounts.value instanceId) :
    (lb.updateStats instanceId false).connectionCounts.value id =
      if id = instanceId then wrapInt (lb.connectionCounts.value instanceId - 1)
      else lb.connectionCounts.value id := by
  simp only [LeastConnectionLoadBalancer.updateStats, Bool.false_eq_true, if_false,
    Numbers.value_ensure, gt_iff_lt, h, if_true, Numbers.value_set]

theorem selectServiceInstance_countOf {discover : Discovery ρ} {stub stub' : Stub ρ}
    {r : Except Text ServiceInstance}
    (h : exec (selectServiceInstance (directoryOf discover)) stub = some (r, stub')) (id : Text) :
    countOf stub' id = countOf stub id := by
  rw [exec_select rfl] at h
  dsimp only at h
  cases hd : discover stub.serviceName stub.directory.1 with
  | mk found registry =>
    rw [hd] at h
    cases found with
    | error e =>
      cases h
      rfl
    | ok instances =>
      dsimp only at h
      split at h
      · cases h
        rfl
      · cases h
        exact select_value id

end Selection

section Preparation

variable {discover : Discovery ρ} {stub stub' : Stub ρ}

theorem counted_eq (start : Bool) (stub : Stub ρ) :
    counted leastConnection start stub =
      { stub with
        directory := (stub.directory.1,
          stub.directory.2.updateStats stub.currentInstanceId start) } :=
  if_pos rfl

theorem countOf_started (hidle : Idle stub) (id : Text) :
    countOf (counted leastConnection true stub) id =
      if id = stub.currentInstanceId then 1 else 0 := by
  have hzero : ∀ id, stub.directory.2.connectionCounts.value id = 0 := hidle
  rw [counted_eq]
  change (stub.directory.2.updateStats stub.currentInstanceId true).connectionCounts.value id = _
  rw [start_value, hzero, hzero]
  rfl

theorem prepares_idle {r : Except Text Bool} (hidle : Idle stub) (hmode : stub.useServiceDiscovery)
    (h : Prepares (directoryOf discover) stub r stub') (hr : r ≠ .ok true) : Idle stub' := by
  intro id
  cases h with
  | throws _ hsel => rw [selectServiceInstance_countOf hsel, hidle]
  | switchFails _ hsel _ _ => exact (selectServiceInstance_countOf hsel id).trans (hidle id)
  | reuses => exact absurd rfl hr
  | switches => exact absurd rfl hr
  | connected => exact absurd rfl hr
  | connectFails hdirect _ _ =>
    rw [hmode] at hdirect
    cases hdirect
  | connects => exact absurd rfl hr

/-- A call with a connection is counted for the instance the stub has changed to. -/
theorem prepares_counted (hd : Discovering stub) (hidle : Idle stub)
    (h : Prepares (directoryOf discover) stub (.ok true) stub') :
    stub'.useServiceDiscovery = true ∧ (∃ client, stub'.tcpClient = some client) ∧
      stub'.currentInstanceId.isEmpty = false ∧
      ∀ id, countOf stub' id = if id = stub'.currentInstanceId then 1 else 0 := by
  have hmode := hd.mode
  cases h with
  | reuses _ hsel hc hid hlb =>
    cases hlb
    rw [counted_eq]
    refine ⟨hmode, hd.client hc, ?_, ?_⟩
    · rw [List.isEmpty_eq_false_iff]
      change stub.currentInstanceId ≠ []
      rw [hid]
      exact ServiceInstance.getId_ne_nil _
    · intro id
      rw [← counted_eq]
      exact countOf_started (fun id => (selectServiceInstance_countOf hsel id).trans (hidle id)) id
  | switches _ hsel _ _ hlb =>
    cases hlb
    rw [counted_eq]
    refine ⟨hmode, ⟨_, rfl⟩, ?_, ?_⟩
    · rw [List.isEmpty_eq_false_iff]
      exact ServiceInstance.getId_ne_nil _
    · intro id
      rw [← counted_eq]
      refine countOf_started (fun id => ?_) id
      exact (selectServiceInstance_countOf hsel id).trans (hidle id)
  | connected hdirect _ =>
    rw [hmode] at hdirect
    cases hdirect
  | connects hdirect _ _ =>
    rw [hmode] at hdirect
    cases hdirect

theorem cleaned_idle (discover : Discovery ρ) (hmode : stub.useServiceDiscovery = true)
    (hid : stub.currentInstanceId.isEmpty = false)
    (hcount : ∀ id, countOf stub id = if id = stub.currentInstanceId then 1 else 0) :
    Idle (cleaned (directoryOf discover) stub) := by
  intro id
  have hcleaned : cleaned (directoryOf discover) stub = counted leastConnection false stub := by
    change (if stub.useServiceDiscovery && !stub.currentInstanceId.isEmpty then _ else _) = _
    rw [hmode, hid]
    rfl
  have hone : stub.directory.2.connectionCounts.value stub.currentInstanceId = 1 := by
    have h := hcount stub.currentInstanceId
    rwa [if_pos rfl] at h
  rw [hcleaned, counted_eq]
  change (stub.directory.2.updateStats stub.currentInstanceId false).connectionCounts.value id = 0
  rw [end_value _ _ (by omega), hone]
  by_cases h : id = stub.currentInstanceId
  · rw [if_pos h]
    rfl
  · rw [if_neg h]
    exact (hcount id).trans (if_neg h)

end Preparation

section Run

variable {stub stub' : Stub ρ} {call : Call ρ ν}

theorem discovering_directory (s : Stub ρ) (d : ρ × LeastConnectionLoadBalancer)
    (hd : Discovering s) : Discovering { s with directory := d } := ⟨hd.mode, hd.client⟩

theorem prepares_discovering {discover : Discovery ρ} {r : Except Text Bool}
    (hd : Discovering stub) (h : Prepares (directoryOf discover) stub r stub') :
    Discovering stub' := by
  refine h.invariant discovering_directory hd ?_ ?_ ?_
  · refine fun _ inst dials => ⟨hd.mode, ?_⟩
    intro hc
    cases hc
  · exact fun _ inst client dials => ⟨hd.mode, fun _ => ⟨_, rfl⟩⟩
  · intro hdirect
    rw [hd.mode] at hdirect
    cases hdirect

theorem call_discovering (hd : Discovering stub) (h : callStep stub call = some stub') :
    Discovering stub' := by
  obtain ⟨⟨r, stub'⟩, hrun, rfl⟩ := Option.map_eq_some_iff.mp h
  refine (callEnds_of_exec hrun).invariant discovering_directory
    (fun _ _ => prepares_discovering hd) ?_
  intro stub₁ reply stub₂ hprepare hsend
  have hd₁ := prepares_discovering hd (prepares_of_exec hprepare)
  obtain ⟨c, rfl, hc⟩ := sendRpcRequest_kept hsend
  exact ⟨hd₁.mode, fun hconnected => hc (hd₁.client hconnected)⟩

/-- A call leaves no count behind exactly when it is answered if it gets a
connection. -/
theorem call_idle_iff (hd : Discovering stub) (hidle : Idle stub) (call : Call ρ ν) :
    (∀ t, callStep stub call = some t → Idle t) ↔ Answered stub call := by
  constructor
  · intro hall stub₁ client hprepare hclient hends
    obtain ⟨hmode, -, hid, hcount⟩ := prepares_counted hd hidle (prepares_of_exec hprepare)
    obtain ⟨reply, c, hsend, hreceived⟩ := sendRpcRequest_exec hends hclient
    cases reply with
    | ok response => exact ⟨response, (hreceived response).mp rfl⟩
    | error e =>
      have hstep : callStep stub call = some { stub₁ with tcpClient := some c } := by
        rw [callStep, step, exec_callMethod, hprepare, Option.bind_some]
        dsimp only
        rw [hsend]
        rfl
      have hleak := hall _ hstep stub₁.currentInstanceId
      have hone := hcount stub₁.currentInstanceId
      rw [if_pos rfl] at hone
      exact absurd (hone.symm.trans hleak) (by decide)
  · intro hanswered t ht
    obtain ⟨⟨r, stub'⟩, hrun, rfl⟩ := Option.map_eq_some_iff.mp ht
    cases callEnds_of_exec hrun with
    | throws hp => exact prepares_idle hidle hd.mode hp (by simp)
    | unready hp => exact prepares_idle hidle hd.mode hp (by simp)
    | @fails stub₁ _ e hprepare hsend =>
      obtain ⟨hmode, ⟨client, hclient⟩, hid, hcount⟩ :=
        prepares_counted hd hidle (prepares_of_exec hprepare)
      have hends := ends_of_exec hclient hsend
      obtain ⟨response, hresponse⟩ := hanswered stub₁ client hprepare hclient hends
      obtain ⟨reply', c, hsend', hreceived⟩ := sendRpcRequest_exec hends hclient
      rw [hsend] at hsend'
      cases hsend'
      cases (hreceived response).mpr hresponse
    | @answered stub₁ _ response hprepare hsend =>
      obtain ⟨hmode, ⟨client, hclient⟩, hid, hcount⟩ :=
        prepares_counted hd hidle (prepares_of_exec hprepare)
      have hends := ends_of_exec hclient hsend
      obtain ⟨reply', c, hsend', -⟩ := sendRpcRequest_exec hends hclient
      rw [hsend] at hsend'
      cases hsend'
      exact cleaned_idle call.discover hmode hid hcount

/-- After every call of a run all counts are zero again exactly when every call of
the run that gets a connection is answered. -/
theorem balanced_iff (stub : Stub ρ) (hmode : stub.useServiceDiscovery = true)
    (hnew : stub.connected = false) (hfresh : stub.directory.2 = {}) (calls : List (Call ρ ν)) :
    (∀ before t, before <+: calls → run callStep stub before = some t → Idle t) ↔
      Guarded callStep Answered stub calls := by
  have hidle : Idle stub := by
    intro id
    rw [countOf, hfresh]
    rfl
  have hd : Discovering stub := by
    refine ⟨hmode, ?_⟩
    intro hc
    rw [hnew] at hc
    cases hc
  exact forall_prefix_iff_guarded (fun s call t hs h => call_discovering hs h)
    (fun s call hs hi => call_idle_iff hs hi call) hd hidle

end Run

section Leak

def onlyInstance : ServiceInstance := ⟨text "A", text "127.0.0.1", 8080, 1, true, 0, []⟩

/-- A connection whose peer is gone when the first request is sent. -/
def goneClient : TcpClient :=
  ⟨4, .connected, [], [], [], [.error (.other (text "Broken pipe"))]⟩

def countingStub : Stub Unit :=
  ⟨text "A", [], 0, false, true, [], none, [some goneClient], ((), {}), none⟩

def failingCall : Call Unit Unit :=
  ⟨runtime, fun _ s => (.ok [onlyInstance], s), text "B", 7, emptyCaller⟩

theorem balanced_iff_failing :
    (∀ before t, before <+: [failingCall] → run callStep countingStub before = some t → Idle t) ↔
      Guarded callStep Answered countingStub [failingCall] :=
  balanced_iff countingStub rfl rfl rfl [failingCall]

/-- A call whose request cannot be sent stays counted after it has ended. -/
theorem failed_call_stays_counted :
    ∃ t, run callStep countingStub [failingCall] = some t ∧
      countOf t onlyInstance.getId = 1 := ⟨_, rfl, rfl⟩

end Leak

end Mprpc.BalancedCounts
