import Mprpc.ClientReads
import Mprpc.RpcClient
import Mprpc.Session

namespace Mprpc.SessionCalls

open Transport RpcProtocolHelper RpcClientStub ClientReads
open TcpClient hiding receive
open Session hiding receive
open Library.ByteOrder Library.Loop Library.Transition

variable {pb : Protobuf} {s : Session} {σ : Type}

/-- A session with the state of a client's connection. -/
def joined (s : Session) (c : TcpClient) : Session :=
  { s with state := c.state, incoming := c.incoming, toServer := c.outgoing }

/-- What `readExactly` makes of the way its loop ends. -/
def ended (c : TcpClient) : ReadOutcome → Option Bytes × TcpClient
  | .complete data => (some data, c)
  | .timedOut => (none, c)
  | .disconnected => (none, { c with state := .disconnected })

theorem readExactly_run (length : Nat) (c : TcpClient) :
    (readExactly length).run c =
      (drive readRound ((Reading.start length).map (·, c.incoming) (·, c.incoming)) c.recvs).map
        fun p => ended { c with incoming := p.1.2, recvs := p.2 } p.1.1 := by
  rw [ClientReads.readExactly_run]
  rfl

/-- A state inside a loop leads on as the one that the loop was entered from. -/
theorem onBody_again (s' : Reading × Bytes) (p : Progress (Reading × Bytes) (ReadOutcome × Bytes)) :
    onBody pb (onBody pb s (.again s')) p = onBody pb s p := by
  cases p with
  | again s'' => rfl
  | done result => obtain ⟨_ | _ | _, incoming⟩ := result <;> rfl

theorem onHeader_again (s' : Reading × Bytes)
    (p : Progress (Reading × Bytes) (ReadOutcome × Bytes)) :
    onHeader pb (onHeader pb s (.again s')) p = onHeader pb s p := by
  cases p with
  | again s'' => rfl
  | done result =>
    obtain ⟨outcome, incoming⟩ := result
    cases outcome with
    | complete lengthBytes =>
      dsimp only [onHeader]
      split
      · rfl
      · exact onBody_again s' _
    | timedOut => rfl
    | disconnected => rfl

theorem onSent_again (s' : Sending × Bytes) (p : Progress (Sending × Bytes) (SendOutcome × Bytes)) :
    onSent pb (onSent pb s (.again s')) p = onSent pb s p := by
  cases p with
  | again s'' => rfl
  | done result => obtain ⟨_ | _, toServer⟩ := result <;> rfl

theorem readExactly_session {on : Progress (Reading × Bytes) (ReadOutcome × Bytes) → Session}
    (hon : ∀ s' outcome,
      step pb (on (.again s')) (.recv outcome) = some (on (readRound s' outcome)))
    {length : Nat} {c c' : TcpClient} {data : Option Bytes}
    (h : (readExactly length).run c = some (data, c')) :
    ∃ (used recvs : List Recv) (outcome : ReadOutcome) (incoming : Bytes),
      run (step pb) (on ((Reading.start length).map (·, c.incoming) (·, c.incoming)))
          (used.map .recv) = some (on (.done (outcome, incoming))) ∧
        ended { c with incoming := incoming, recvs := recvs } outcome = (data, c') := by
  rw [readExactly_run] at h
  obtain ⟨⟨⟨outcome, incoming⟩, recvs⟩, hdrive, hended⟩ := Option.map_eq_some_iff.mp h
  obtain ⟨used, _, hrun⟩ := drive_run hon hdrive
  exact ⟨used, recvs, outcome, incoming, hrun, hended⟩

theorem body_session (pb : Protobuf) (s : Session) {length : Nat} {c c' : TcpClient}
    {data : Option Bytes}
    (h : (readExactly length).run c = some (data, c')) :
    ∃ used : List Recv, run (step pb) (onBody pb (joined s c)
        ((Reading.start length).map (·, c.incoming) (·, c.incoming))) (used.map .recv) =
      some (finish pb (joined s c') data) := by
  have hon : ∀ s' outcome, step pb (onBody pb (joined s c) (.again s')) (.recv outcome) =
      some (onBody pb (joined s c) (readRound s' outcome)) := by
    intro s' outcome
    exact congrArg some (onBody_again s' _)
  obtain ⟨used, recvs, outcome, incoming, hrun, hended⟩ := readExactly_session hon h
  refine ⟨used, hrun.trans ?_⟩
  cases outcome <;> cases hended <;> rfl

theorem receive_session {c c' : TcpClient} {data : Option Bytes}
    (h : TcpClient.receive.run c = some (data, c')) :
    ∃ used : List Recv, run (step pb) (Session.receive pb (joined s c)) (used.map .recv) =
      some (finish pb (joined s c') data) := by
  by_cases hs : c.state = .connected
  · have hstart : Session.receive pb (joined s c) = onHeader pb (joined s c)
        ((Reading.start 4).map (·, c.incoming) (·, c.incoming)) := if_neg (not_not_intro hs)
    have hon : ∀ s' outcome, step pb (onHeader pb (joined s c) (.again s')) (.recv outcome) =
        some (onHeader pb (joined s c) (readRound s' outcome)) := by
      intro s' outcome
      exact congrArg some (onHeader_again s' _)
    rw [receive_run hs] at h
    obtain ⟨⟨header, c₁⟩, hheader, hrest⟩ := Option.bind_eq_some_iff.mp h
    obtain ⟨used, recvs, outcome, incoming, hrun, hended⟩ := readExactly_session hon hheader
    rw [hstart]
    cases outcome with
    | complete lengthBytes =>
      cases hended
      dsimp only [onHeader] at hrun hrest
      split at hrest
      · rename_i hbad
        cases hrest
        rw [if_pos hbad] at hrun
        exact ⟨used, hrun⟩
      · rename_i hgood
        rw [if_neg hgood] at hrun
        obtain ⟨used', hbody⟩ := body_session pb s hrest
        refine ⟨used ++ used', ?_⟩
        rw [List.map_append, run_append_some]
        exact ⟨_, hrun, hbody⟩
    | timedOut =>
      cases hended
      cases hrest
      exact ⟨used, hrun⟩
    | disconnected =>
      cases hended
      cases hrest
      exact ⟨used, hrun⟩
  · rw [receive_disconnected hs] at h
    cases h
    exact ⟨[], congrArg some (if_pos hs)⟩

theorem send_session (pb : Protobuf) (s : Session) {frame : Bytes} {c c' : TcpClient} {sent : Bool}
    (hs : c.state = .connected) (h : (TcpClient.send frame).run c = some (sent, c')) :
    ∃ used : List SendResult, run (step pb) (onSent pb (joined s c)
        ((Sending.start frame).map (·, c.outgoing) (·, c.outgoing))) (used.map .send) =
      some (if sent then Session.receive pb (joined s c') else finish pb (joined s c') none) := by
  have hon : ∀ s' result, step pb (onSent pb (joined s c) (.again s')) (.send result) =
      some (onSent pb (joined s c) (sendRound s' result)) := by
    intro s' result
    exact congrArg some (onSent_again s' _)
  rw [send_run hs] at h
  obtain ⟨⟨⟨outcome, outgoing⟩, sends⟩, hd, hback⟩ := Option.map_eq_some_iff.mp h
  obtain ⟨used, _, hrun⟩ := drive_run hon hd
  refine ⟨used, hrun.trans ?_⟩
  cases outcome with
  | complete =>
    cases hback
    rw [if_pos rfl]
    rfl
  | failed errorMsg =>
    cases hback
    rfl

/-- The record of what a call returns. -/
def returnedBy (number : Nat) : Except Text RpcResponse → List (Nat × RpcResponse)
  | .ok response => [(number, response)]
  | .error _ => []

theorem finish_returned (pb : Protobuf) (s : Session) (received : Option Bytes) :
    (finish pb s received).phase = .idle ∧
      (finish pb s received).returned =
        s.returned ++ returnedBy s.calls (responseOf pb received) := by
  cases received with
  | none => exact ⟨rfl, (List.append_nil _).symm⟩
  | some data =>
    dsimp only [finish, responseOf]
    cases parseResponse pb data with
    | error e => exact ⟨rfl, (List.append_nil _).symm⟩
    | ok response => exact ⟨rfl, rfl⟩

theorem beginCall_post {c : TcpClient} {request : RpcRequest} {payload : Bytes}
    (hserialize : serializeRequest pb request = .ok payload) (hs : c.state = .connected) :
    beginCall pb (joined s c) request = onSent pb (joined (post s payload) c)
      ((Sending.start (FrameCodec.encode payload)).map (·, c.outgoing) (·, c.outgoing)) := by
  have hpost : post (joined s c) payload = joined (post s payload) c := by
    unfold post
    split <;> rfl
  unfold beginCall
  rw [hserialize, ← hpost]
  exact if_neg (not_not_intro hs)

theorem beginCall_refused {c : TcpClient} {request : RpcRequest}
    (h : c.state ≠ .connected ∨ ∃ e, serializeRequest pb request = .error e) :
    beginCall pb (joined s c) request = finish pb (joined s c) none := by
  unfold beginCall
  cases hserialize : serializeRequest pb request with
  | error e => rfl
  | ok payload =>
    cases h with
    | inl hs => exact if_pos hs
    | inr h =>
      obtain ⟨e, he⟩ := h
      rw [hserialize] at he
      cases he

theorem joined_finish (pb : Protobuf) (s : Session) (c : TcpClient) (received : Option Bytes) :
    finish pb (joined s c) received = joined (finish pb (joined s c) received) c := by
  cases received with
  | none => rfl
  | some data =>
    dsimp only [finish]
    cases parseResponse pb data <;> rfl

/-- The session can follow a call that takes a client from `c` to `c'`, with the
server silent all along. -/
def Follows (pb : Protobuf) (s : Session) (c : TcpClient) (request : RpcRequest)
    (r : Except Text RpcResponse) (c' : TcpClient) : Prop :=
  ∃ (sends : List SendResult) (recvs : List Recv) (t : Session),
    run (step pb) (joined s c) (.call request :: (sends.map .send ++ recvs.map .recv)) = some t ∧
      t = joined t c' ∧ t.phase = .idle ∧ t.returned = s.returned ++ returnedBy (s.calls + 1) r

section Call

variable {c c₁ c₂ : TcpClient} {request : RpcRequest} {payload : Bytes}

theorem call_step (pb : Protobuf) (c : TcpClient) (request : RpcRequest) (hidle : s.phase = .idle) :
    step pb (joined s c) (.call request) =
      some (beginCall pb (joined { s with calls := s.calls + 1 } c) request) := by
  simp only [step, joined, hidle]

theorem follows_refused (hidle : s.phase = .idle)
    (h : c.state ≠ .connected ∨ ∃ e, serializeRequest pb request = .error e) (e : Text) :
    Follows pb s c request (.error e) c := by
  have hcall := call_step pb c request hidle
  rw [beginCall_refused h] at hcall
  exact ⟨[], [], finish pb (joined { s with calls := s.calls + 1 } c) none,
    run_cons_some.mpr ⟨_, hcall, rfl⟩, rfl, rfl, (List.append_nil _).symm⟩

theorem post_kept (s : Session) (payload : Bytes) :
    (post s payload).calls = s.calls ∧ (post s payload).returned = s.returned := by
  unfold post
  split <;> exact ⟨rfl, rfl⟩

theorem follows_unsent (hidle : s.phase = .idle) (hs : c.state = .connected)
    (hserialize : serializeRequest pb request = .ok payload)
    (hsend : (TcpClient.send (FrameCodec.encode payload)).run c = some (false, c₁)) (e : Text) :
    Follows pb s c request (.error e) c₁ := by
  have hcall := call_step pb c request hidle
  rw [beginCall_post hserialize hs] at hcall
  obtain ⟨sends, hrun⟩ := send_session pb (post { s with calls := s.calls + 1 } payload) hs hsend
  refine ⟨sends, [], finish pb (joined (post { s with calls := s.calls + 1 } payload) c₁) none,
    ?_, rfl, rfl, ?_⟩
  · rw [List.map_nil, List.append_nil, run_cons_some]
    exact ⟨_, hcall, hrun⟩
  · exact (post_kept _ payload).2.trans (List.append_nil _).symm

theorem follows_sent {received : Option Bytes} (hidle : s.phase = .idle)
    (hs : c.state = .connected) (hserialize : serializeRequest pb request = .ok payload)
    (hsend : (TcpClient.send (FrameCodec.encode payload)).run c = some (true, c₁))
    (hreceive : TcpClient.receive.run c₁ = some (received, c₂)) :
    Follows pb s c request (responseOf pb received) c₂ := by
  have hcall := call_step pb c request hidle
  rw [beginCall_post hserialize hs] at hcall
  obtain ⟨sends, hrun⟩ := send_session pb (post { s with calls := s.calls + 1 } payload) hs hsend
  obtain ⟨recvs, hrun'⟩ := receive_session hreceive
  obtain ⟨hphase, hreturned⟩ := finish_returned pb
    (joined (post { s with calls := s.calls + 1 } payload) c₂) received
  obtain ⟨hcalls, hkept⟩ := post_kept { s with calls := s.calls + 1 } payload
  refine ⟨sends, recvs, _, ?_, joined_finish pb _ c₂ received, hphase, ?_⟩
  · rw [run_cons_some]
    exact ⟨_, hcall, run_append_some.mpr ⟨_, hrun, hrun'⟩⟩
  · rw [hreturned]
    dsimp only [joined]
    rw [hcalls, hkept]

end Call

/-- Whatever `sendRpcRequest` does on a stub, the session can follow it. -/
theorem sendRpcRequest_session {stub stub' : RpcClientStub σ} {c : TcpClient}
    {request : RpcRequest} {r : Except Text RpcResponse} (hclient : stub.tcpClient = some c)
    (hidle : s.phase = .idle) (h : exec (sendRpcRequest pb request) stub = some (r, stub')) :
    ∃ c', stub'.tcpClient = some c' ∧ Follows pb s c request r c' := by
  rw [exec_sendRpcRequest stub pb request hclient] at h
  cases hserialize : serializeRequest pb request with
  | error e =>
    rw [hserialize] at h
    cases h
    exact ⟨c, hclient, follows_refused hidle (.inr ⟨e, hserialize⟩) _⟩
  | ok payload =>
    rw [hserialize] at h
    obtain ⟨⟨sent, c₁⟩, hsend, hrest⟩ := Option.bind_eq_some_iff.mp h
    by_cases hs : c.state = .connected
    · cases sent with
      | false =>
        cases hrest
        exact ⟨c₁, rfl, follows_unsent hidle hs hserialize hsend _⟩
      | true =>
        obtain ⟨⟨received, c₂⟩, hreceive, heq⟩ := Option.map_eq_some_iff.mp hrest
        cases heq
        exact ⟨c₂, rfl, follows_sent hidle hs hserialize hsend hreceive⟩
    · rw [send_unconnected hs] at hsend
      cases hsend
      cases hrest
      exact ⟨c, rfl, follows_refused hidle (.inl hs) _⟩

end Mprpc.SessionCalls
