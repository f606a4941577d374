import Mprpc.Deployment
import Mprpc.EnvelopeTrip
import Mprpc.Library.Simulation
import Mprpc.ReadOutcomes
import Mprpc.RequestResponse
import Mprpc.ServerAnswers
import Mprpc.ServerReads
import Mprpc.SessionNumbers
import Mprpc.SessionStream

namespace Mprpc.RemoteCalls

open Transport RpcProtocolHelper RpcServer TcpConnection TcpServer Deployment
open ServerFraming ServerReads ServerAnswers SessionStream EnvelopeTrip ReadOutcomes
open Library.Incremental Library.Transition

variable {μ : Type} {server : RpcServer μ} {workers : Nat} {d d' : Deployment} {s : Session}

/-- The payload is that of the request of a call. -/
def Posted (server : RpcServer μ) (d : Deployment) (number : Nat) (payload : Bytes) : Prop :=
  payload ≠ [] ∧ ∃ request, d.requests[number - 1]? = some request ∧
    serializeRequest server.protobuf request = .ok payload

/-- The payload of the response that `handleRpcRequest` sends. -/
def Replies (server : RpcServer μ) (payload reply : Bytes) : Prop :=
  ∃ peer sent, (server.handleRpcRequest (some peer) payload).run [] = .ok () [sent] ∧
    serializeResponse server.protobuf sent.response = .ok reply

/-- The session that a deployment implements: what the server has read and not yet answered
is still on the stream, as long as its end of the connection is open. -/
structure Refines (server : RpcServer μ) (d : Deployment) (s : Session) : Prop where
  live : Live d.connection.inputBuffer
  callback : d.connection.messageCallback = true
  client : ∃ front, s = behind front s.answered d.session ∧ (d.connection.state = .connected →
    front = d.tasks.flatMap FrameCodec.encode ++ d.connection.inputBuffer.readable)
  tasks : d.connection.state = .connected →
    d.tasks = (d.session.pending.map (·.2)).take d.tasks.length
  streamed : Streamed s
  counted : d.requests.length = d.session.calls
  posted : ∀ p ∈ d.session.pending, Posted server d p.1 p.2
  answered : ∀ p ∈ s.answered, ∃ payload, Posted server d p.1 payload ∧ Replies server payload p.2

/-- The requests of a run fit the server's limit. -/
def Sized (server : RpcServer μ) (_ : Deployment) : Act → Prop
  | .call request => SessionStream.Sized server.protobuf (.call request)
  | _ => True

theorem initial_refines (server : RpcServer μ) (sockfd : Int) (peerAddr : Text) :
    Refines server (initial sockfd peerAddr) Session.initial where
  live := accepted_live sockfd peerAddr
  callback := rfl
  client := ⟨[], rfl, fun _ => (Buffer.new_readable _).symm⟩
  tasks _ := rfl
  streamed := initial_streamed
  counted := rfl
  posted p hp := by cases hp
  answered p hp := by cases hp

theorem Posted.of_requests {number : Nat} {payload : Bytes} (h : Posted server d number payload)
    {more : List RpcRequest} (hd : d'.requests = d.requests ++ more) :
    Posted server d' number payload := by
  obtain ⟨hne, request, hrequest, hserialize⟩ := h
  refine ⟨hne, request, ?_, hserialize⟩
  rw [hd, List.getElem?_append_left (List.getElem?_eq_some_iff.mp hrequest).1, hrequest]

section Client

variable {pb : Protobuf} {session : Session} {act : Session.Act}

theorem beginCall_pending (pb : Protobuf) (s : Session) (request : RpcRequest) :
    (Session.beginCall pb s request).calls = s.calls ∧
      ((Session.beginCall pb s request).pending = s.pending ∨ ∃ payload,
        s.state = .connected ∧ serializeRequest pb request = .ok payload ∧ payload ≠ [] ∧
        (Session.beginCall pb s request).pending = s.pending ++ [(s.calls, payload)]) := by
  unfold Session.beginCall
  cases hserialize : serializeRequest pb request with
  | error e =>
    have hsilent := finish_silent pb s none
    exact ⟨hsilent.calls, .inl hsilent.pending⟩
  | ok payload =>
    dsimp only
    by_cases hs : s.state = .connected
    · rw [if_neg (not_not_intro hs)]
      obtain ⟨hcalls, hpending, -⟩ : SessionNumbers.Kept (Session.post s payload)
          (Session.onSent pb (Session.post s payload)
            ((Sending.start (FrameCodec.encode payload)).map (·, s.toServer) (·, s.toServer))) :=
        SessionNumbers.onSent_kept _
      rw [hpending, hcalls]
      by_cases hpayload : payload = []
      · rw [hpayload]
        exact ⟨rfl, .inl rfl⟩
      · rw [Session.post, if_neg (by rwa [List.isEmpty_iff])]
        exact ⟨rfl, .inr ⟨payload, hs, rfl, hpayload, rfl⟩⟩
    · rw [if_pos hs]
      have hsilent := finish_silent pb s none
      exact ⟨hsilent.calls, .inl hsilent.pending⟩

theorem pending_of_step (hcall : ∀ request, act ≠ .call request)
    (hanswer : ∀ reply, act ≠ .answer reply) (h : Session.step pb s act = some session) :
    session.pending = s.pending ∧ session.calls = s.calls := by
  have hkept : SessionNumbers.Kept s session := by
    cases Session.moves_of_step h with
    | call hphase => exact absurd rfl (hcall _)
    | send hphase => exact SessionNumbers.onSent_kept _
    | answer => exact absurd rfl (hanswer _)
    | header hphase => exact SessionNumbers.onHeader_kept _
    | body hphase => exact SessionNumbers.onBody_kept _
  exact ⟨hkept.2.1, hkept.1⟩

theorem Refines.client_step (h : Refines server d s) (d' : Deployment)
    (hanswer : ∀ reply, act ≠ .answer reply)
    (hstep : Session.step server.protobuf d.session act = some session)
    (hsized : SessionStream.Sized server.protobuf act)
    (hpending : ∃ more, session.pending = d.session.pending ++ more)
    (hd : d'.session = session ∧ d'.connection = d.connection ∧ d'.tasks = d.tasks)
    (hposted : d'.requests.length = d'.session.calls ∧
      ∀ p ∈ session.pending, Posted server d' p.1 p.2)
    (hrequests : ∃ more, d'.requests = d.requests ++ more) :
    ∃ t, Session.step server.protobuf s act = some t ∧ Refines server d' t ∧
      t.answered = s.answered := by
  obtain ⟨front, hs, hfront⟩ := h.client
  obtain ⟨rfl, hconnection, htasks⟩ := hd
  have hmatch : Session.step server.protobuf s act =
      some (behind front s.answered d'.session) := by
    rw [hs, step_behind front s.answered d.session hanswer, hstep]
    rfl
  obtain ⟨more, hmore⟩ := hpending
  obtain ⟨extra, hextra⟩ := hrequests
  refine ⟨_, hmatch, ?_, rfl⟩
  refine ⟨by rw [hconnection]; exact h.live, by rw [hconnection]; exact h.callback,
    ⟨front, rfl, by rw [hconnection, htasks]; exact hfront⟩, ?_,
    step_streamed h.streamed hsized hmatch, hposted.1, hposted.2, ?_⟩
  · intro hopen
    rw [hconnection] at hopen
    have htake := h.tasks hopen
    have hlen : d.tasks.length ≤ (d.session.pending.map (·.2)).length := by
      have hcount := congrArg List.length htake
      rw [List.length_take] at hcount
      omega
    rw [htasks, hmore, List.map_append, List.take_append_of_le_length hlen]
    exact htake
  · intro p hp
    obtain ⟨payload, hpayload, hreply⟩ := h.answered p hp
    exact ⟨payload, hpayload.of_requests hextra, hreply⟩

end Client

section Read

theorem framesOf_eq (pending : List (Nat × Bytes)) :
    framesOf pending = (pending.map (·.2)).flatMap FrameCodec.encode :=
  (List.flatMap_map Prod.snd FrameCodec.encode pending).symm

theorem drain_frames {values : List Bytes} (hframable : ∀ value ∈ values, Framable value)
    {xs : Bytes} (hxs : xs <+: values.flatMap FrameCodec.encode) :
    ∃ k rest, k ≤ values.length ∧ frames.drain xs = (values.take k, some rest) ∧
      xs = (values.take k).flatMap FrameCodec.encode ++ rest := by
  obtain ⟨k, hk, hdrain, hlongest⟩ := frames_inverts.drain_prefix values hframable hxs
  have hwhole : (values.take k).flatMap FrameCodec.encode <+: values.flatMap FrameCodec.encode := by
    have hsplit := congrArg (List.flatMap FrameCodec.encode) (List.take_append_drop k values)
    rw [List.flatMap_append] at hsplit
    exact ⟨_, hsplit⟩
  obtain ⟨rest, hrest⟩ :=
    List.prefix_of_prefix_length_le hwhole hxs ((hlongest k hk).mpr le_rfl)
  refine ⟨k, rest, hk, ?_, hrest.symm⟩
  rw [hdrain, ← hrest, List.drop_left]

theorem Refines.delivers (h : Refines server d s) (hopen : d.connection.state = .connected)
    {data : Bytes} (hdata : data <+: d.session.toServer) {b : Buffer} (live : Live b)
    (hread : b.readable = (frames.drain (d.connection.inputBuffer.readable ++ data)).2.getD []) :
    Refines server
      { d with
        session := { d.session with toServer := d.session.toServer.drop data.length }
        connection := { d.connection with
          inputBuffer := b
          effects := d.connection.effects ++
            (frames.drain (d.connection.inputBuffer.readable ++ data)).1.map .message }
        tasks := d.tasks ++ (frames.drain (d.connection.inputBuffer.readable ++ data)).1 } s := by
  obtain ⟨front, hs, hfront⟩ := h.client
  obtain rfl := hfront hopen
  obtain ⟨later, hlater⟩ := hdata
  have hdrop : d.session.toServer.drop data.length = later := by
    rw [← hlater, List.drop_left]
  let values := d.session.pending.map (·.2)
  have htasks : d.tasks = values.take d.tasks.length := h.tasks hopen
  have hsplit : d.tasks ++ values.drop d.tasks.length = values := by
    have htake := List.take_append_drop d.tasks.length values
    rwa [← htasks] at htake
  have hpending : s.pending = d.session.pending := by
    have hfield := congrArg Session.pending hs
    exact hfield
  have hstream : s.toServer = d.tasks.flatMap FrameCodec.encode ++
      d.connection.inputBuffer.readable ++ d.session.toServer := congrArg Session.toServer hs
  have hxs : d.connection.inputBuffer.readable ++ data <+:
      (values.drop d.tasks.length).flatMap FrameCodec.encode := by
    have hcut := h.streamed.cut
    rw [framesOf_eq, hpending] at hcut
    change _ <+: values.flatMap FrameCodec.encode at hcut
    rw [← hsplit, List.flatMap_append, hstream, List.append_assoc,
      List.prefix_append_right_inj, ← hlater, ← List.append_assoc] at hcut
    exact (List.prefix_append _ _).trans hcut
  have hframable : ∀ value ∈ values.drop d.tasks.length, Framable value := by
    intro value hvalue
    obtain ⟨p, hp, rfl⟩ := List.mem_map.mp (List.mem_of_mem_drop hvalue)
    exact h.streamed.framable p (hpending ▸ hp)
  obtain ⟨k, rest, hk, hdrain, hcut⟩ := drain_frames hframable hxs
  rw [hdrain] at hread ⊢
  dsimp only [Option.getD_some] at hread ⊢
  refine ⟨live, h.callback, ?_, ?_, h.streamed, h.counted, h.posted, h.answered⟩
  · refine ⟨_, ?_, fun _ => rfl⟩
    have hsame : d.tasks.flatMap FrameCodec.encode ++ d.connection.inputBuffer.readable ++
        d.session.toServer = (d.tasks ++ (values.drop d.tasks.length).take k).flatMap
          FrameCodec.encode ++ b.readable ++ d.session.toServer.drop data.length := by
      rw [hdrop, hread, List.flatMap_append, List.append_assoc, List.append_assoc,
        List.append_assoc, ← hlater, ← List.append_assoc _ data, hcut, List.append_assoc]
    exact hs.trans (congrArg (fun stream =>
      ({ d.session with toServer := stream, answered := s.answered } : Session)) hsame)
  · intro _
    have hlen : (d.tasks ++ (values.drop d.tasks.length).take k).length = d.tasks.length + k := by
      rw [List.length_append, List.length_take, Nat.min_eq_left hk]
    change d.tasks ++ (values.drop d.tasks.length).take k =
      values.take (d.tasks ++ (values.drop d.tasks.length).take k).length
    rw [hlen, List.take_add, ← htasks]

theorem Refines.read_step (h : Refines server d s) {result : Readv}
    (hstep : d.readStep result = some d') : Refines server d' s := by
  unfold Deployment.readStep at hstep
  split at hstep
  · rename_i harrives
    obtain ⟨hopen, hfit, hbytes⟩ := harrives
    obtain ⟨c, hrun, houtcome⟩ := handleClientRead_outcome h.live h.callback hfit
    rw [hrun] at hstep
    cases hstep
    obtain ⟨front, hs, hfront⟩ := h.client
    cases houtcome with
    | waits =>
      refine ⟨h.live, h.callback, ⟨front, hs, ?_⟩, ?_, h.streamed, h.counted, h.posted, h.answered⟩
      · intro _
        rw [List.drop_length, List.append_nil]
        exact hfront hopen
      · intro _
        rw [List.drop_length, List.append_nil]
        exact h.tasks hopen
    | ends live callback closed _ size =>
      have hkept : d.session.toServer.drop result.size = d.session.toServer := by
        rw [size, List.drop_zero]
      have hnever : ∀ {P : Prop}, c.state = .connected → P := by
        intro P hstate
        rw [closed.state] at hstate
        cases hstate
      rw [hkept]
      exact ⟨live, callback, ⟨front, hs, hnever⟩, hnever, h.streamed, h.counted, h.posted,
        h.answered⟩
    | @delivers data b live readable =>
      have hhanded : TcpConnection.handed { d.connection with
          inputBuffer := b
          effects := d.connection.effects ++
            (frames.drain (d.connection.inputBuffer.readable ++ data)).1.map .message } =
          d.connection.handed ++
            (frames.drain (d.connection.inputBuffer.readable ++ data)).1 :=
        messagesOf_append _ _
      rw [hhanded, List.drop_left]
      exact h.delivers hopen hbytes live readable
  · cases hstep

end Read

section Serve

/-- The answer to the oldest request is the answer of the session. -/
theorem Refines.answers (h : Refines server d s) (hopen : d.connection.state = .connected)
    {data : Bytes} {tasks : List Bytes} (htasks : d.tasks = data :: tasks) {sent : Sent}
    (hrun : (server.handleRpcRequest (some d.connection.peerAddr) data).run [] = .ok () [sent])
    {reply : Bytes} (hreply : serializeResponse server.protobuf sent.response = .ok reply)
    (hlen : reply.length < 2 ^ 31) :
    ∃ t, Session.step server.protobuf s (.answer reply) = some t ∧ Refines server
      { d with
        session := { d.session with
          incoming := d.session.incoming ++ FrameCodec.encode reply
          pending := d.session.pending.eraseIdx 0 }
        tasks := tasks } t := by
  obtain ⟨front, hs, hfront⟩ := h.client
  obtain rfl := hfront hopen
  have hqueue := h.tasks hopen
  rw [htasks] at hqueue hs
  cases hpending : d.session.pending with
  | nil =>
    rw [hpending] at hqueue
    cases hqueue
  | cons p pending =>
    obtain ⟨number, payload⟩ := p
    rw [hpending, List.map_cons, List.length_cons, List.take_succ_cons] at hqueue
    obtain ⟨rfl, hrest⟩ := List.cons.inj hqueue
    have hspending : s.pending = (number, data) :: pending := by
      have hfield := congrArg Session.pending hs
      exact hfield.trans hpending
    have hstream : s.toServer = FrameCodec.encode data ++ (tasks.flatMap FrameCodec.encode ++
        d.connection.inputBuffer.readable ++ d.session.toServer) := by
      have hfield := congrArg Session.toServer hs
      refine hfield.trans ?_
      simp only [behind, List.flatMap_cons, List.append_assoc]
    have hframe : FrameCodec.encode data <+: s.toServer := ⟨_, hstream.symm⟩
    have hmatch : Session.step server.protobuf s (.answer reply) =
        some (Session.answer s number data pending reply) := by
      simp only [Session.step, hspending]
      rw [if_pos ⟨List.isPrefixOf_iff_prefix.mpr hframe, hlen⟩]
    have hsized : SessionStream.Sized server.protobuf (.answer reply) := trivial
    refine ⟨_, hmatch, h.live, h.callback, ⟨_, ?_, fun _ => rfl⟩, ?_,
      step_streamed h.streamed hsized hmatch, h.counted, ?_, ?_⟩
    · have hdrop : s.toServer.drop (FrameCodec.encode data).length =
          tasks.flatMap FrameCodec.encode ++ d.connection.inputBuffer.readable ++
            d.session.toServer := by rw [hstream, List.drop_left]
      have hsession : Session.answer s number data pending reply = { d.session with
          toServer := s.toServer.drop (FrameCodec.encode data).length
          incoming := d.session.incoming ++ FrameCodec.encode reply
          pending := pending
          answered := s.answered ++ [(number, reply)] } := by
        rw [hs]
        rfl
      rw [hsession, hdrop]
      rfl
    · intro _
      exact hrest
    · intro q hq
      exact h.posted q (hpending ▸ List.mem_cons_of_mem _ hq)
    · intro q hq
      cases List.mem_append.mp hq with
      | inl hold => exact h.answered q hold
      | inr hnew =>
        obtain rfl := List.mem_singleton.mp hnew
        have hposted := h.posted (number, data) (hpending ▸ List.mem_cons_self)
        exact ⟨data, hposted, _, sent, hrun, hreply⟩

theorem Refines.serve_step (h : Refines server d s) (hsafe : ErrorsSerialize server) {k : Nat}
    (holdest : d.connection.state = .connected → k = 0)
    (hstep : d.serveStep server workers k = some d') :
    Refines server d' s ∨ ∃ reply t, Session.step server.protobuf s (.answer reply) = some t ∧
      Refines server d' t := by
  unfold Deployment.serveStep at hstep
  cases htask : d.tasks[k]? with
  | none =>
    rw [htask] at hstep
    cases hstep
  | some data =>
    obtain ⟨sent, hrun, ⟨-, reply, hreply, hframe⟩, -⟩ :=
      handleRpcRequest_cases hsafe d.connection.peerAddr data []
    rw [List.nil_append] at hrun
    simp only [htask, hrun] at hstep
    split at hstep
    · cases hstep
    split at hstep
    · rename_i hclosed
      cases hstep
      obtain ⟨front, hs, -⟩ := h.client
      have hnever : ∀ {P : Prop}, d.connection.state = .connected → P :=
        fun hopen => absurd hopen hclosed
      exact .inl ⟨h.live, h.callback, ⟨front, hs, hnever⟩, hnever, h.streamed, h.counted,
        h.posted, h.answered⟩
    · rename_i hopen
      obtain rfl := holdest (not_not.mp hopen)
      obtain ⟨tasks, htasks⟩ : ∃ tasks, d.tasks = data :: tasks :=
        List.head?_eq_some_iff.mp (List.head?_eq_getElem? ▸ htask)
      rw [List.flatMap_cons, List.flatMap_nil, List.append_nil, hframe, htasks,
        List.eraseIdx_cons_zero] at hstep
      split at hstep
      · cases hstep
      · rename_i hsmall
        cases hstep
        have hlen : reply.length < 2 ^ 31 := by
          by_cases hempty : reply = []
          · rw [hempty]
            decide
          · have hencode := FrameCodec.encode_length hempty
            omega
        obtain ⟨t, ht, href⟩ := h.answers (not_not.mp hopen) htasks hrun hreply hlen
        exact .inr ⟨reply, t, ht, href⟩

end Serve

section Steps

theorem Refines.call_step (h : Refines server d s) {request : RpcRequest}
    (hsized : Sized server d (.call request))
    (hstep : step server workers d (.call request) = some d') :
    ∃ t, Session.step server.protobuf s (.call request) = some t ∧ Refines server d' t := by
  obtain ⟨session, hsession, rfl⟩ := Option.map_eq_some_iff.mp hstep
  have hphase : d.session.phase = .idle := by
    cases Session.moves_of_step hsession with
    | call hphase => exact hphase
  have hbegin : session =
      Session.beginCall server.protobuf { d.session with calls := d.session.calls + 1 }
        request := by
    cases Session.moves_of_step hsession with
    | call hphase => rfl
  obtain ⟨hcalls, hpending⟩ := beginCall_pending server.protobuf
    { d.session with calls := d.session.calls + 1 } request
  rw [← hbegin] at hcalls hpending
  have hold : ∀ p ∈ d.session.pending, Posted server
      { d with session := session, requests := d.requests ++ [request] } p.1 p.2 :=
    fun p hp => (h.posted p hp).of_requests rfl
  have hlength : (d.requests ++ [request]).length = session.calls := by
    rw [List.length_append, h.counted, hcalls]
    rfl
  have hclient := h.client_step { d with session := session, requests := d.requests ++ [request] }
    (fun _ hact => by cases hact) hsession hsized
  obtain hsame | ⟨payload, -, hserialize, hne, hmore⟩ := hpending
  · obtain ⟨t, ht, href, -⟩ := hclient ⟨[], by rw [hsame, List.append_nil]⟩ ⟨rfl, rfl, rfl⟩
      ⟨hlength, fun p hp => hold p (hsame ▸ hp)⟩ ⟨[request], rfl⟩
    exact ⟨t, ht, href⟩
  · have hposted : ∀ p ∈ session.pending, Posted server
        { d with session := session, requests := d.requests ++ [request] } p.1 p.2 := by
      intro p hp
      rw [hmore] at hp
      cases List.mem_append.mp hp with
      | inl hp => exact hold p hp
      | inr hp =>
        obtain rfl := List.mem_singleton.mp hp
        refine ⟨hne, request, ?_, hserialize⟩
        dsimp only
        rw [Nat.add_sub_cancel, ← h.counted, List.getElem?_append_right le_rfl, Nat.sub_self]
        rfl
    obtain ⟨t, ht, href, -⟩ := hclient ⟨_, hmore⟩ ⟨rfl, rfl, rfl⟩ ⟨hlength, hposted⟩
      ⟨[request], rfl⟩
    exact ⟨t, ht, href⟩

theorem Refines.silent_step (h : Refines server d s) {act : Session.Act} {session : Session}
    (hcall : ∀ request, act ≠ .call request) (hanswer : ∀ reply, act ≠ .answer reply)
    (hsession : Session.step server.protobuf d.session act = some session) :
    ∃ t, Session.step server.protobuf s act = some t ∧
      Refines server { d with session := session } t := by
  obtain ⟨hpending, hcalls⟩ := pending_of_step hcall hanswer hsession
  have hsized : SessionStream.Sized server.protobuf act := by
    cases act with
    | call request => exact absurd rfl (hcall request)
    | _ => trivial
  obtain ⟨t, ht, href, -⟩ := h.client_step { d with session := session } hanswer hsession
    hsized ⟨[], by rw [hpending, List.append_nil]⟩ ⟨rfl, rfl, rfl⟩
    ⟨h.counted.trans hcalls.symm, fun p hp => h.posted p (hpending ▸ hp)⟩
    ⟨[], (List.append_nil _).symm⟩
  exact ⟨t, ht, href⟩

/-- Every step is a step of the session or none, if the oldest request is the one that is
answered. -/
theorem Refines.step (h : Refines server d s) (hsafe : ErrorsSerialize server) {act : Act}
    (hsized : Sized server d act)
    (holdest : ∀ k, act = .serve k → d.connection.state = .connected → k = 0)
    (hstep : step server workers d act = some d') :
    Refines server d' s ∨ ∃ act' t, Session.step server.protobuf s act' = some t ∧
      Refines server d' t ∧ ∀ request, act' = .call request → act = .call request := by
  cases act with
  | call request =>
    obtain ⟨t, ht, href⟩ := h.call_step hsized hstep
    exact .inr ⟨_, t, ht, href, fun request' hact => by cases hact; rfl⟩
  | send result =>
    obtain ⟨session, hsession, rfl⟩ := Option.map_eq_some_iff.mp hstep
    obtain ⟨t, ht, href⟩ := h.silent_step (fun _ hact => by cases hact)
      (fun _ hact => by cases hact) hsession
    exact .inr ⟨_, t, ht, href, fun _ hact => by cases hact⟩
  | recv outcome =>
    obtain ⟨session, hsession, rfl⟩ := Option.map_eq_some_iff.mp hstep
    obtain ⟨t, ht, href⟩ := h.silent_step (fun _ hact => by cases hact)
      (fun _ hact => by cases hact) hsession
    exact .inr ⟨_, t, ht, href, fun _ hact => by cases hact⟩
  | read result => exact .inl (h.read_step hstep)
  | serve k =>
    obtain href | ⟨reply, t, ht, href⟩ := h.serve_step hsafe (holdest k rfl) hstep
    · exact .inl href
    · exact .inr ⟨_, t, ht, href, fun _ hact => by cases hact⟩

/-- With one worker the pool answers the requests in their order. -/
def inOrder (hsafe : ErrorsSerialize server) :
    Simulation (Deployment.step server 1) (Sized server) (Session.step server.protobuf)
      (fun _ _ => True) where
  rel := Refines server
  matched d act d' s h hsized hstep := by
    have holdest : ∀ k, act = .serve k → d.connection.state = .connected → k = 0 := by
      rintro k rfl -
      simp only [Deployment.step, Deployment.serveStep] at hstep
      split at hstep
      · cases hstep
      · split at hstep
        · cases hstep
        · omega
    obtain href | ⟨act', t, ht, href, -⟩ := h.step hsafe hsized holdest hstep
    · exact ⟨[], s, rfl, trivial, href⟩
    · exact ⟨[act'], t, run_cons_some.mpr ⟨t, ht, rfl⟩, ⟨trivial, fun _ _ => trivial⟩, href⟩

/-- Whatever the streams, the reads and the worker do, a deployment with one worker behaves as
a server that answers whole requests in their order. -/
theorem deployment_refines (hsafe : ErrorsSerialize server) (sockfd : Int) (peerAddr : Text)
    (acts : List Act) (d : Deployment)
    (hsized : Guarded (step server 1) (Sized server) (initial sockfd peerAddr) acts)
    (h : run (step server 1) (initial sockfd peerAddr) acts = some d) :
    ∃ acts' s, run (Session.step server.protobuf) Session.initial acts' = some s ∧
      Refines server d s := by
  obtain ⟨acts', s, hrun, -, href⟩ :=
    (inOrder hsafe).run_matched (initial_refines server sockfd peerAddr) hsized h
  exact ⟨acts', s, hrun, href⟩

/-- One call to the echo server, whose request arrives in two pieces. -/
def echoActs : List Act :=
  [.call ⟨7, text "A", text "B", [1]⟩, .send (.sent 15), .read (.bytes [0, 0, 0, 11, 8, 7]),
    .read (.bytes [18, 1, 65, 26, 1, 66, 42, 1, 1]), .serve 0, .recv (.ready 4), .recv (.ready 7)]

theorem deployment_refines_echo : ∃ d acts' s,
    run (step (echoServer echoRequest) 1) (initial 5 []) echoActs = some d ∧
    run (Session.step (echoServer echoRequest).protobuf) Session.initial acts' = some s ∧
      Refines (echoServer echoRequest) d s := by
  have hrun : (run (step (echoServer echoRequest) 1) (initial 5 []) echoActs).isSome = true := by
    decide +kernel
  obtain ⟨d, hd⟩ := Option.isSome_iff_exists.mp hrun
  have hsized : Guarded (step (echoServer echoRequest) 1) (Sized (echoServer echoRequest))
      (initial 5 []) echoActs := by
    refine ⟨?_, ?_⟩
    · intro payload hpayload
      cases hpayload
      decide
    · intro t _
      exact guarded_of_invariant (P := fun _ => True)
        (Q := fun act => ∀ request, act ≠ .call request) (fun _ _ _ _ _ _ => trivial)
        (fun d act _ hact => by
          cases act with
          | call request => exact absurd rfl (hact request)
          | _ => trivial) trivial (by simp)
  obtain ⟨acts', s, hs, href⟩ :=
    deployment_refines (echoServer_errorsSerialize echoRequest) 5 [] echoActs d hsized hd
  exact ⟨d, acts', s, hd, hs, href⟩

end Steps

end Mprpc.RemoteCalls
