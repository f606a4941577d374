import Mprpc.ConnectionLoss
import Mprpc.StubSteps

namespace Mprpc.StubBelief

open Transport RpcProtocolHelper RpcClientStub CallTruth StubSteps ConnectionLoss
open Library.Transition

variable {σ ν : Type} {stub stub' : RpcClientStub σ}

/-- A stub that says it is connected has a client, and the client says so too. -/
def Believes (stub : RpcClientStub σ) : Prop :=
  stub.connected = true → ∃ client, stub.tcpClient = some client ∧ client.state = .connected

/-- A call that goes on to send does so on a connection that is up: on the one
there is, or on a new one. -/
def Reconnects (stub : RpcClientStub σ) : Prop :=
  ∀ (directory : Directory σ) stub₁, exec (prepare directory) stub = some (.ok true, stub₁) →
    ∃ client, stub₁.tcpClient = some client ∧ client.state = .connected

/-- One of the outcomes that a request meets on its way out, or the wait for its
response, is the end of the connection. -/
def Breaks (pb : Protobuf) (request : RpcRequest) (client : TcpClient) : Prop :=
  ∃ envelope, serializeRequest pb request = .ok envelope ∧
    (SendFails (FrameCodec.encode envelope) client ∨
      ∃ c₁, (TcpClient.send (FrameCodec.encode envelope)).run client = some (true, c₁) ∧
        ReceiveFails c₁)

/-- The call loses the connection it uses. -/
def Loses (pb : Protobuf) (directory : Directory σ) (methodName : Text) (requestId : UInt64)
    (caller : Caller ν) (stub : RpcClientStub σ) : Prop :=
  ∃ stub₁ client, exec (prepare directory) stub = some (.ok true, stub₁) ∧
    stub₁.tcpClient = some client ∧
    Breaks pb (requestOf stub₁ methodName requestId caller) client

/-- No call loses its connection. -/
def Keeps (stub : RpcClientStub σ) : Op σ ν → Prop
  | .connect => True
  | .disconnect => True
  | .callMethod pb directory methodName requestId caller =>
    ¬Loses pb directory methodName requestId caller stub

theorem prepares_ready {directory : Directory σ}
    (h : Prepares directory stub (.ok true) stub') (hb : Believes stub) :
    stub'.connected = true ∧
      ∃ client, stub'.tcpClient = some client ∧ client.state = .connected := by
  cases h with
  | reuses hmode hsel hc hid hlb =>
    obtain ⟨d, hcounted⟩ := counted_kept _ true _
    rw [hcounted]
    exact ⟨hc, hb hc⟩
  | switches hmode hsel hsame hdials hlb =>
    obtain ⟨d, hcounted⟩ := counted_kept _ true _
    rw [hcounted]
    exact ⟨rfl, _, rfl, rfl⟩
  | connected hmode hc => exact ⟨hc, hb hc⟩
  | connects hmode hc hdials => exact ⟨rfl, _, rfl, rfl⟩

theorem connects_believes {r : Except Text Bool} (hb : Believes stub)
    (h : Connects stub r stub') : Believes stub' := by
  cases h with
  | stays hc => exact hb
  | fails hc hdials =>
    intro hc'
    rw [refused, hc] at hc'
    cases hc'
  | opens hc hdials => exact fun _ => ⟨_, rfl, rfl⟩

theorem prepares_believes {directory : Directory σ} {r : Except Text Bool} (hb : Believes stub)
    (h : Prepares directory stub r stub') : Believes stub' := by
  refine h.invariant (fun _ _ hs => hs) hb ?_ ?_ (fun _ _ _ => connects_believes hb)
  · intro _ inst dials hc
    cases hc
  · exact fun _ inst client dials _ => ⟨_, rfl, rfl⟩

section Call

variable {pb : Protobuf} {directory : Directory σ} {methodName : Text} {requestId : UInt64}
variable {caller : Caller ν} {request : RpcRequest} {client : TcpClient}

theorem sendRpcRequest_breaks (hclient : stub.tcpClient = some client)
    (hs : client.state = .connected) (h : Breaks pb request client) :
    ∃ e c, exec (sendRpcRequest pb request) stub =
      some (.error e, { stub with tcpClient := some c }) ∧ c.state = .disconnected := by
  obtain ⟨envelope, hserialize, hlost⟩ := h
  rw [exec_sendRpcRequest stub pb request hclient, hserialize]
  dsimp only
  by_cases hsend : SendFails (FrameCodec.encode envelope) client
  · obtain ⟨c, hrun, hc⟩ := send_fails hs hsend
    rw [hrun]
    exact ⟨_, c, rfl, hc⟩
  · obtain ⟨c₁, hrun, hreceive⟩ := hlost.resolve_left hsend
    obtain ⟨c, hrun', hc⟩ := receive_fails (send_keeps hs hsend hrun).2 hreceive
    rw [hrun, Option.bind_some, if_pos rfl, hrun']
    exact ⟨_, c, rfl, hc⟩

theorem sendRpcRequest_keeps (hclient : stub.tcpClient = some client)
    (hs : client.state = .connected) (h : ¬Breaks pb request client)
    {reply : Except Text RpcResponse}
    (hrun : exec (sendRpcRequest pb request) stub = some (reply, stub')) :
    ∃ c, stub' = { stub with tcpClient := some c } ∧ c.state = .connected := by
  rw [exec_sendRpcRequest stub pb request hclient] at hrun
  cases hserialize : serializeRequest pb request with
  | error e =>
    rw [hserialize] at hrun
    cases hrun
    exact ⟨client, by rw [← hclient], hs⟩
  | ok envelope =>
    rw [hserialize] at hrun
    obtain ⟨hsend, hreceive⟩ := not_or.mp fun hlost => h ⟨envelope, hserialize, hlost⟩
    obtain ⟨⟨sent, c₁⟩, hsent, hrest⟩ := Option.bind_eq_some_iff.mp hrun
    obtain ⟨rfl, hc₁⟩ := send_keeps hs hsend hsent
    obtain ⟨⟨received, c₂⟩, hreceived, hrest⟩ := Option.map_eq_some_iff.mp hrest
    cases hrest
    have hkeep : ¬ReceiveFails c₁ := fun hfails => hreceive ⟨c₁, hsent, hfails⟩
    exact ⟨c₂, rfl, receive_keeps hc₁ hkeep hreceived⟩

theorem call_believes_iff (hb : Believes stub) :
    (∀ t, step stub (.callMethod pb directory methodName requestId caller) = some t → Believes t) ↔
      ¬Loses pb directory methodName requestId caller stub := by
  constructor
  · rintro hall ⟨stub₁, client, hprepare, hclient, hbreaks⟩
    obtain ⟨hc, client', hclient', hs⟩ := prepares_ready (prepares_of_exec hprepare) hb
    rw [hclient] at hclient'
    cases hclient'
    obtain ⟨e, c, hsend, hlost⟩ := sendRpcRequest_breaks hclient hs hbreaks
    have hstep : step stub (.callMethod pb directory methodName requestId caller) =
        some { stub₁ with tcpClient := some c } := by
      rw [step, exec_callMethod, hprepare, Option.bind_some]
      dsimp only
      rw [hsend]
      rfl
    obtain ⟨c', hc', hs'⟩ := hall _ hstep hc
    cases hc'
    rw [hlost] at hs'
    cases hs'
  · intro hkeeps t ht
    obtain ⟨⟨r, stub'⟩, hrun, rfl⟩ := Option.map_eq_some_iff.mp ht
    refine (callEnds_of_exec hrun).invariant (fun _ _ hs => hs)
      (fun _ _ hp => prepares_believes hb hp) ?_
    intro stub₁ reply stub₂ hprepare hsend
    obtain ⟨hc, client, hclient, hs⟩ := prepares_ready (prepares_of_exec hprepare) hb
    have hwhole : ¬Breaks pb (requestOf stub₁ methodName requestId caller) client := fun h =>
      hkeeps ⟨stub₁, client, hprepare, hclient, h⟩
    obtain ⟨c, rfl, hc'⟩ := sendRpcRequest_keeps hclient hs hwhole hsend
    exact fun _ => ⟨c, rfl, hc'⟩

end Call

theorem step_believes_iff (hb : Believes stub) (op : Op σ ν) :
    (∀ t, step stub op = some t → Believes t) ↔ Keeps stub op := by
  cases op with
  | connect =>
    refine ⟨fun _ => trivial, ?_⟩
    intro _ t ht
    obtain ⟨⟨r, stub'⟩, hrun, rfl⟩ := Option.map_eq_some_iff.mp ht
    exact connects_believes hb (connects_of_exec hrun)
  | disconnect =>
    refine ⟨fun _ => trivial, ?_⟩
    intro _ t ht
    cases ht
    intro hc
    cases hc
  | callMethod pb directory methodName requestId caller => exact call_believes_iff hb

theorem reconnects_of_believes (hb : Believes stub) : Reconnects stub :=
  fun _ _ h => (prepares_ready (prepares_of_exec h) hb).2

/-- In every state of a run the stub is right about its connection, and the next
call sends on a live one, exactly when no call of the run loses the connection
it uses. -/
theorem belief_true_iff (stub : RpcClientStub σ) (hnew : stub.connected = false)
    (ops : List (Op σ ν)) :
    (∀ before t, before <+: ops → run step stub before = some t → Believes t ∧ Reconnects t) ↔
      Guarded step Keeps stub ops := by
  have hinv : ∀ (s : RpcClientStub σ) (op : Op σ ν) t, True → step s op = some t → True :=
    fun _ _ _ _ _ => trivial
  have hb : Believes stub := by
    intro hc
    rw [hnew] at hc
    cases hc
  rw [← forall_prefix_iff_guarded hinv (fun s op _ hs => step_believes_iff hs op) trivial hb]
  constructor
  · intro h before t hbefore hrun
    exact (h before t hbefore hrun).1
  · intro h before t hbefore hrun
    have ht := h before t hbefore hrun
    exact ⟨ht, reconnects_of_believes ht⟩

section Broken

/-- A connection whose peer is gone when the first request is sent. -/
def brokenClient : TcpClient :=
  ⟨4, .connected, [], [], [], [.error (.other (text "Broken pipe"))]⟩

def brokenStub : RpcClientStub Unit :=
  { directStub with dials := [some brokenClient, some refusedClient] }

def call : Op Unit Unit := .callMethod runtime noDirectory (text "B") 7 emptyCaller

theorem belief_true_iff_broken :
    (∀ before t, before <+: [.connect, call, call] → run step brokenStub before = some t →
      Believes t ∧ Reconnects t) ↔ Guarded step Keeps brokenStub [.connect, call, call] :=
  belief_true_iff brokenStub rfl [.connect, call, call]

/-- The stub after a call that has lost its connection. -/
def lostStub : RpcClientStub Unit :=
  { brokenStub with
    connected := true, tcpClient := some { brokenClient with state := .disconnected, sends := [] },
    dials := [some refusedClient], peer := some (text "127.0.0.1", 8080) }

/-- The flag stays up, and the next call fails on the dead connection although a
new one could be opened. -/
theorem dead_connection_believed :
    run step brokenStub [.connect, call] = some lostStub ∧ ¬Believes lostStub ∧
      run step brokenStub [.connect, call, call] = some lostStub := by
  refine ⟨rfl, ?_, rfl⟩
  intro hb
  obtain ⟨client, hclient, hs⟩ := hb rfl
  cases hclient
  cases hs

end Broken

end Mprpc.StubBelief
