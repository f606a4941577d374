import Mprpc.Decimal
import Mprpc.Library.Lines
import Mprpc.StubSteps

namespace Mprpc.InstanceTarget

open Transport RpcProtocolHelper RpcClientStub CallTruth StubSteps
open Decimal Library.Lines Library.Transition

variable {σ ν : Type} {stub stub' : RpcClientStub σ}

/-- The id that an instance at an address has. -/
def idOf (address : Text × UInt16) : Text := address.1 ++ text ":" ++ decimal address.2.toNat

theorem getId_eq (inst : ServiceInstance) : inst.getId = idOf (inst.host, inst.port) := rfl

theorem colon_notMem (n : Nat) : (58 : UInt8) ∉ decimal n := by
  intro h
  have hle := (digit_of_mem_decimal h).2
  exact absurd hle (by decide)

theorem idOf_injective : Function.Injective idOf := by
  rintro ⟨host, port⟩ ⟨host', port'⟩ h
  have hcolon : text ":" = [58] := by decide
  simp only [idOf, hcolon, List.append_assoc, List.singleton_append] at h
  obtain ⟨rfl, hport⟩ := split_last (colon_notMem _) (colon_notMem _) h
  rw [UInt16.toNat_inj.mp (decimal_injective hport)]

/-- The call that is made next writes to the instance it selects: a request goes
out on the client that `prepare` leaves, if that is connected. -/
def Faithful (stub : RpcClientStub σ) : Prop :=
  ∀ (directory : Directory σ) inst stub₁ stub₂ client,
    exec (selectServiceInstance directory) stub = some (.ok inst, stub₁) →
    exec (prepare directory) stub = some (.ok true, stub₂) →
    stub₂.tcpClient = some client → client.state = .connected →
    stub₂.peer = some (inst.host, inst.port)

/-- An open connection leads to the instance that is remembered, if one is. -/
def OnTarget (stub : RpcClientStub σ) : Prop :=
  ∀ client, stub.connected = true → stub.tcpClient = some client → client.state = .connected →
    stub.currentInstanceId = [] ∨
      ∃ address, stub.peer = some address ∧ stub.currentInstanceId = idOf address

/-- What holds in every state of a stub in discovery mode. -/
structure Discovering (stub : RpcClientStub σ) : Prop where
  mode : stub.useServiceDiscovery = true
  named : stub.currentInstanceId = [] ∨
    ∃ inst : ServiceInstance, stub.currentInstanceId = inst.getId

/-- A manual `connect` opens a connection only to the instance that is remembered. -/
def Aimed (stub : RpcClientStub σ) : Op σ ν → Prop
  | .connect => stub.connected = true ∨ ∀ client dials, stub.dials = some client :: dials →
    stub.currentInstanceId = [] ∨ stub.currentInstanceId = idOf (stub.host, stub.port)
  | .disconnect => True
  | .callMethod .. => True

theorem faithful_of_onTarget (hd : Discovering stub) (h : OnTarget stub) : Faithful stub := by
  intro directory inst stub₁ stub₂ client hsel hprepare hclient hs
  cases prepares_of_exec hprepare with
  | reuses _ hsel' hc hid hlb =>
    rw [hsel] at hsel'
    cases hsel'
    obtain ⟨d, hcounted⟩ := counted_kept _ true _
    rw [hcounted] at hclient ⊢
    cases h client hc hclient hs with
    | inl hnone =>
      rw [hnone] at hid
      exact absurd hid.symm inst.getId_ne_nil
    | inr hpeer =>
      obtain ⟨address, hpeer, hid'⟩ := hpeer
      rw [hid, getId_eq] at hid'
      rw [idOf_injective hid']
      exact hpeer
  | switches _ hsel' _ _ hlb =>
    rw [hsel] at hsel'
    cases hsel'
    obtain ⟨d, hcounted⟩ := counted_kept _ true _
    rw [hcounted]
    rfl
  | connected hdirect _ =>
    rw [hd.mode] at hdirect
    cases hdirect
  | connects hdirect _ _ =>
    rw [hd.mode] at hdirect
    cases hdirect

/-- A registry and a balancer that both know of one instance. -/
def single (inst : ServiceInstance) : Directory σ where
  discoverService := some fun _ s => (.ok [inst], s)
  loadBalancer := some ⟨fun _ s => (.ok inst, s), [], fun _ _ s => s⟩

theorem single_selects (inst : ServiceInstance) :
    exec (selectServiceInstance (single inst)) stub = some (.ok inst, stub) := by
  rw [exec_select rfl]
  rfl

theorem single_reuses {inst : ServiceInstance} (hmode : stub.useServiceDiscovery = true)
    (hc : stub.connected = true) (hid : stub.currentInstanceId = inst.getId) :
    exec (prepare (single inst)) stub = some (.ok true, stub) := by
  rw [exec_prepare_discovery hmode, single_selects, Option.bind_some]
  dsimp only
  rw [if_neg (by simp [hc, hid])]
  have hname : ([] : Text) ≠ text "LeastConnection" := by decide
  change some (_, counted _ true stub) = _
  rw [counted, if_neg hname]

theorem onTarget_of_faithful (hd : Discovering stub) (h : Faithful stub) : OnTarget stub := by
  intro client hc hclient hs
  cases hd.named with
  | inl hnone => exact .inl hnone
  | inr hnamed =>
    obtain ⟨inst, hid⟩ := hnamed
    right
    exact ⟨_, h (single inst) inst stub stub client (single_selects inst)
      (single_reuses hd.mode hc hid) hclient hs, hid⟩

section Run

variable {directory : Directory σ} {r : Except Text Bool}

theorem prepares_onTarget (hd : Discovering stub) (h : OnTarget stub)
    (hp : Prepares directory stub r stub') : OnTarget stub' := by
  refine hp.invariant (fun _ _ hs => hs) h ?_ ?_ ?_
  · intro _ inst dials client hc
    cases hc
  · exact fun _ inst client dials _ _ _ _ => .inr ⟨_, rfl, rfl⟩
  · intro hdirect
    rw [hd.mode] at hdirect
    cases hdirect

theorem connects_discovering (hd : Discovering stub) (h : Connects stub r stub') :
    Discovering stub' := by
  cases h with
  | stays hc => exact hd
  | fails hc hdials => exact ⟨hd.mode, hd.named⟩
  | opens hc hdials => exact ⟨hd.mode, hd.named⟩

theorem discovering_directory (s : RpcClientStub σ) (d : σ) (hd : Discovering s) :
    Discovering { s with directory := d } := ⟨hd.mode, hd.named⟩

theorem prepares_discovering (hd : Discovering stub) (hp : Prepares directory stub r stub') :
    Discovering stub' := by
  refine hp.invariant discovering_directory hd ?_ ?_ (fun _ _ _ => connects_discovering hd)
  · exact fun _ inst dials => ⟨hd.mode, hd.named⟩
  · exact fun _ inst client dials => ⟨hd.mode, .inr ⟨_, rfl⟩⟩

theorem sendRpcRequest_unconnected {pb : Protobuf} {request : RpcRequest} {client : TcpClient}
    {reply : Except Text RpcResponse} (hclient : stub.tcpClient = some client)
    (hs : client.state ≠ .connected)
    (h : exec (sendRpcRequest pb request) stub = some (reply, stub')) : stub' = stub := by
  rw [exec_sendRpcRequest stub pb request hclient] at h
  cases hserialize : serializeRequest pb request with
  | error e =>
    rw [hserialize] at h
    cases h
    rfl
  | ok envelope =>
    rw [hserialize] at h
    dsimp only at h
    rw [TcpClient.send_unconnected hs] at h
    cases h
    rw [← hclient]

theorem sendRpcRequest_onTarget {pb : Protobuf} {request : RpcRequest}
    {reply : Except Text RpcResponse} (h : OnTarget stub)
    (hrun : exec (sendRpcRequest pb request) stub = some (reply, stub')) : OnTarget stub' := by
  cases hclient : stub.tcpClient with
  | none =>
    simp only [sendRpcRequest, exec_bind, exec_get, Option.bind_some, hclient, exec_throw] at hrun
    cases hrun
    exact h
  | some client =>
    by_cases hs : client.state = .connected
    · obtain ⟨c, rfl, -⟩ := sendRpcRequest_kept hrun
      exact fun _ hc _ _ => h client hc hclient hs
    · rw [sendRpcRequest_unconnected hclient hs hrun]
      exact h

theorem step_discovering (stub : RpcClientStub σ) (op : Op σ ν) (t : RpcClientStub σ)
    (hd : Discovering stub) (h : step stub op = some t) : Discovering t := by
  cases op with
  | connect =>
    obtain ⟨⟨r, stub'⟩, hrun, rfl⟩ := Option.map_eq_some_iff.mp h
    exact connects_discovering hd (connects_of_exec hrun)
  | disconnect =>
    cases h
    exact ⟨hd.mode, hd.named⟩
  | callMethod pb directory methodName requestId caller =>
    obtain ⟨⟨r, stub'⟩, hrun, rfl⟩ := Option.map_eq_some_iff.mp h
    refine (callEnds_of_exec hrun).invariant discovering_directory
      (fun _ _ => prepares_discovering hd) ?_
    intro stub₁ reply stub₂ hprepare hsend
    have hd₁ := prepares_discovering hd (prepares_of_exec hprepare)
    obtain ⟨c, rfl, -⟩ := sendRpcRequest_kept hsend
    exact ⟨hd₁.mode, hd₁.named⟩

/-- Only a manual `connect` can lead off target. -/
theorem step_onTarget_iff (hd : Discovering stub) (h : OnTarget stub) (op : Op σ ν) :
    (∀ t, step stub op = some t → OnTarget t) ↔ Aimed stub op := by
  cases op with
  | connect =>
    constructor
    · intro hall
      by_cases hc : stub.connected = true
      · exact .inl hc
      · right
        intro client dials hdials
        have hstep : step stub (.connect : Op σ ν) = some (opened stub client dials) := by
          rw [step, exec_connect, if_neg hc, hdials]
          rfl
        cases hall _ hstep _ rfl rfl rfl with
        | inl hnone => exact .inl hnone
        | inr hpeer =>
          obtain ⟨address, hpeer, hid⟩ := hpeer
          cases hpeer
          exact .inr hid
    · intro haimed t ht
      obtain ⟨⟨r, stub'⟩, hrun, rfl⟩ := Option.map_eq_some_iff.mp ht
      cases connects_of_exec hrun with
      | stays hc => exact h
      | fails hc hdials =>
        intro client hc'
        rw [refused, hc] at hc'
        cases hc'
      | @opens client dials hc hdials =>
        have hgoes := haimed.resolve_left (by simp [hc])
        intro client' _ _ _
        exact (hgoes client dials hdials).imp id fun hid => ⟨_, rfl, hid⟩
  | disconnect =>
    refine ⟨fun _ => trivial, ?_⟩
    intro _ t ht
    cases ht
    intro client hc
    cases hc
  | callMethod pb directory methodName requestId caller =>
    refine ⟨fun _ => trivial, ?_⟩
    intro _ t ht
    obtain ⟨⟨r, stub'⟩, hrun, rfl⟩ := Option.map_eq_some_iff.mp ht
    refine (callEnds_of_exec hrun).invariant (fun _ _ hs => hs)
      (fun _ _ => prepares_onTarget hd h) ?_
    intro stub₁ reply stub₂ hprepare hsend
    exact sendRpcRequest_onTarget (prepares_onTarget hd h (prepares_of_exec hprepare)) hsend

/-- Every call of a run writes to the instance it has selected exactly when every
manual `connect` of the run goes to the instance remembered. -/
theorem faithful_iff_aimed (stub : RpcClientStub σ) (hmode : stub.useServiceDiscovery = true)
    (hnew : stub.connected = false) (hid : stub.currentInstanceId = []) (ops : List (Op σ ν)) :
    (∀ before t, before <+: ops → run step stub before = some t → Faithful t) ↔
      Guarded step Aimed stub ops := by
  have hd : Discovering stub := ⟨hmode, .inl hid⟩
  have hstart : OnTarget stub := by
    intro client hc
    rw [hnew] at hc
    cases hc
  apply forall_prefix_iff_guarded step_discovering _ hd (faithful_of_onTarget hd hstart)
  intro s op hs hf
  rw [← step_onTarget_iff hs (onTarget_of_faithful hs hf)]
  constructor
  · intro hall t ht
    exact onTarget_of_faithful (step_discovering s op t hs ht) (hall t ht)
  · intro hall t ht
    exact faithful_of_onTarget (step_discovering s op t hs ht) (hall t ht)

end Run

section Astray

def firstInstance : ServiceInstance := ⟨text "A", text "10.0.0.1", 8080, 1, true, 0, []⟩

def secondInstance : ServiceInstance := ⟨text "A", text "10.0.0.2", 8080, 1, true, 0, []⟩

/-- The first instance answers, the second refuses at first and then accepts. -/
def roamingStub : RpcClientStub Unit :=
  ⟨text "A", [], 0, false, true, [], none, [some refusedClient, none, some refusedClient], (), none⟩

def callTo (inst : ServiceInstance) : Op Unit Unit :=
  .callMethod runtime (single inst) (text "B") 7 emptyCaller

theorem faithful_iff_aimed_roaming :
    (∀ before t, before <+: [callTo firstInstance, callTo secondInstance, .connect] →
      run step roamingStub before = some t → Faithful t) ↔
      Guarded step Aimed roamingStub [callTo firstInstance, callTo secondInstance, .connect] :=
  faithful_iff_aimed roamingStub rfl rfl rfl
    [callTo firstInstance, callTo secondInstance, .connect]

/-- A call that selects the first instance again writes its request to the second. -/
theorem request_goes_astray :
    ∃ t t' client client',
      run step roamingStub [callTo firstInstance, callTo secondInstance, .connect] = some t ∧
      t.tcpClient = some client ∧ client.outgoing = [] ∧
      exec (selectServiceInstance (single firstInstance)) t = some (.ok firstInstance, t) ∧
      step t (callTo firstInstance) = some t' ∧
      t'.tcpClient = some client' ∧ client'.outgoing.length = 15 ∧
      t'.peer = some (secondInstance.host, secondInstance.port) ∧
      secondInstance.host ≠ firstInstance.host :=
  ⟨_, _, _, _, rfl, rfl, rfl, rfl, rfl, rfl, rfl, rfl, by decide⟩

end Astray

end Mprpc.InstanceTarget
