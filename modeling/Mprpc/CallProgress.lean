import Mprpc.LocalCalls
import Mprpc.SessionCalls

namespace Mprpc.CallProgress

open Transport RpcProtocolHelper RpcServer TcpConnection TcpServer Deployment
open ServerFraming ServerReads ServerAnswers SessionStream EnvelopeTrip RemoteCalls LocalCalls
open Library.ByteOrder Library.Incremental Library.Loop Library.Transition

variable {μ : Type} {server : RpcServer μ} {workers : Nat} {d d' : Deployment} {s : Session}

/-- Between two calls, with both ends open and nothing under way. -/
structure AtRest (d : Deployment) : Prop where
  phase : d.session.phase = .idle
  state : d.session.state = .connected
  open_ : d.connection.state = .connected
  tasks : d.tasks = []
  readable : d.connection.inputBuffer.readable = []
  toServer : d.session.toServer = []
  incoming : d.session.incoming = []
  pending : d.session.pending = []

/-- A request with names that are texts, which fits the server's limit and whose answer fits
the client's. The request that is all defaults is never sent. -/
structure Servable (server : RpcServer μ) (request : RpcRequest) : Prop where
  service : ValidUtf8 request.serviceName
  method : ValidUtf8 request.methodName
  ne_default : request ≠ {}
  sized : SessionStream.Sized server.protobuf (.call request)
  reply : ∀ reply, serializeResponse server.protobuf (localAnswer server request) = .ok reply →
    reply.length ≤ TcpClient.maxMessageSize

theorem initial_atRest (sockfd : Int) (peerAddr : Text) : AtRest (initial sockfd peerAddr) :=
  ⟨rfl, rfl, rfl, rfl, Buffer.new_readable _, rfl, rfl, rfl⟩

theorem AtRest.calm (h : AtRest d) {request : RpcRequest} (hr : Servable server request) :
    Calm server d (.call request) :=
  ⟨hr.sized, hr.service, hr.method, fun _ => ⟨h.open_, h.tasks, h.readable, h.toServer, h.incoming⟩⟩

section Client

variable {pb : Protobuf}

/-- Results of `::send` that take `n` bytes in parts, with waits between them. -/
inductive Takes : Nat → List SendResult → Prop
  | done : Takes 0 []
  | wait {n : Nat} {errno : Errno} {results : List SendResult} : 0 < n →
      errno.wouldBlock = true → Takes n results → Takes n (.error errno :: results)
  | part {n k : Nat} {results : List SendResult} : 0 < k → Takes n results →
      Takes (k + n) (.sent k :: results)

/-- Outcomes of `recv` that bring `n` bytes in parts to a loop whose counter is at `retry`, with
waits between them that do not make it give up. -/
inductive Brings : Nat → Nat → List Recv → Prop
  | done {retry : Nat} : Brings 0 retry []
  | interrupted {n retry : Nat} {outcomes : List Recv} : 0 < n → Brings n retry outcomes →
      Brings n retry (.error .eintr :: outcomes)
  | wait {n retry : Nat} {outcome : Recv} {outcomes : List Recv} : 0 < n → outcome.waits = true →
      retry < Reading.maxRetries → Brings n (retry + 1) outcomes →
        Brings n retry (outcome :: outcomes)
  | part {n k retry : Nat} {outcomes : List Recv} : 0 < k → Brings n 0 outcomes →
      Brings (k + n) retry (.ready k :: outcomes)

theorem Takes.drive_sends {n : Nat} {results : List SendResult} (h : Takes n results)
    {frame : Bytes} {m : Nat} (hm : m + n = frame.length) :
    drive TcpClient.sendRound ((Sending.check ⟨frame, m⟩).map (·, frame.take m) (·, frame.take m))
      results = some ((.complete, frame), []) := by
  induction h generalizing m with
  | done =>
    have hcheck : Sending.check ⟨frame, m⟩ = .done .complete :=
      if_neg (Nat.not_lt.mpr (by dsimp only; omega))
    rw [hcheck, Progress.map, List.take_of_length_le (by omega), drive_done]
  | @wait n errno results hn hwait _ ih =>
    have hagain : Sending.check ⟨frame, m⟩ = .again ⟨frame, m⟩ := if_pos (by dsimp only; omega)
    have hround : TcpClient.sendRound (⟨frame, m⟩, frame.take m) (.error errno) =
        .again (⟨frame, m⟩, frame.take m) := by
      simp [TcpClient.sendRound, Sending.attempt, hwait, Sending.put, Progress.map]
    have hrest := ih hm
    rw [hagain, Progress.map] at hrest ⊢
    rw [drive, hround, hrest]
  | @part n k results hk _ ih =>
    have hagain : Sending.check ⟨frame, m⟩ = .again ⟨frame, m⟩ := if_pos (by dsimp only; omega)
    have hround : TcpClient.sendRound (⟨frame, m⟩, frame.take m) (.sent k) =
        (Sending.check ⟨frame, m + k⟩).map (·, frame.take (m + k)) (·, frame.take (m + k)) := by
      obtain ⟨j, rfl⟩ := Nat.exists_eq_succ_of_ne_zero hk.ne'
      rw [List.take_add]
      rfl
    rw [hagain, Progress.map, drive, hround]
    exact ih (by omega)

theorem Brings.drive_reads {n retry : Nat} {outcomes : List Recv} (h : Brings n retry outcomes)
    {length : Nat} {data incoming : Bytes} (hdata : data.length + n = length)
    (hlen : n ≤ incoming.length) :
    drive TcpClient.readRound
      ((Reading.check ⟨length, data, retry⟩).map (·, incoming) (·, incoming))
      outcomes = some ((.complete (data ++ incoming.take n), incoming.drop n), []) := by
  have hagain : ∀ {m retry} {data : Bytes}, 0 < m → data.length + m = length →
      Reading.check ⟨length, data, retry⟩ = .again ⟨length, data, retry⟩ :=
    fun hm hdata => if_pos (by dsimp only; omega)
  induction h generalizing data incoming with
  | @done retry =>
    have hcheck : Reading.check ⟨length, data, retry⟩ = .done (.complete data) :=
      if_neg (Nat.not_lt.mpr (by dsimp only; omega))
    rw [hcheck, Progress.map, drive_done, List.take_zero, List.append_nil, List.drop_zero]
  | @interrupted n retry outcomes hn _ ih =>
    have hrest := ih hdata hlen
    rw [hagain hn hdata, Progress.map] at hrest ⊢
    exact hrest
  | @wait n retry outcome outcomes hn hwaits hretry _ ih =>
    have hrest := ih hdata hlen
    have hround : TcpClient.readRound (⟨length, data, retry⟩, incoming) outcome =
        .again (⟨length, data, retry + 1⟩, incoming) := by
      have hmore : ¬ Reading.maxRetries < retry + 1 := by omega
      cases outcome with
      | closed => cases hwaits
      | ready k =>
        obtain rfl : k = 0 := by simpa [Recv.waits] using hwaits
        simp [TcpClient.readRound, recv, Reading.attempt, hmore, Progress.map]
      | error errno =>
        cases errno with
        | eintr => cases hwaits
        | other message => cases hwaits
        | eagain => simp [TcpClient.readRound, recv, Reading.attempt, hmore, Progress.map]
        | ewouldblock => simp [TcpClient.readRound, recv, Reading.attempt, hmore, Progress.map]
    rw [hagain hn hdata, Progress.map] at hrest ⊢
    rw [drive, hround, hrest]
  | @part n k retry outcomes hk _ ih =>
    have hremaining : Reading.remaining ⟨length, data, retry⟩ = k + n := by
      unfold Reading.remaining
      dsimp only
      omega
    have hround : TcpClient.readRound (⟨length, data, retry⟩, incoming) (.ready k) =
        (Reading.check ⟨length, data ++ incoming.take k, 0⟩).map
          (·, incoming.drop k) (·, incoming.drop k) := by
      rw [ClientReads.readRound_ready hk (by omega) (hremaining ▸ hlen), hremaining,
        Nat.min_eq_left (Nat.le_add_right k n)]
    have hdata' : (data ++ incoming.take k).length + n = length := by
      rw [List.length_append, List.length_take]
      omega
    have hlen' : n ≤ (incoming.drop k).length := by
      rw [List.length_drop]
      omega
    rw [hagain (by omega) hdata, Progress.map, drive, hround, ih hdata' hlen', List.append_assoc,
      ← List.take_add, List.drop_drop]

theorem Brings.start_reads {n : Nat} {outcomes : List Recv} (h : Brings n 0 outcomes)
    {incoming : Bytes} (hlen : n ≤ incoming.length) :
    drive TcpClient.readRound ((Reading.start n).map (·, incoming) (·, incoming)) outcomes =
      some ((.complete (incoming.take n), incoming.drop n), []) :=
  h.drive_reads (List.length_nil ▸ Nat.zero_add n) hlen

/-- The client puts the whole request on the stream. -/
theorem asks {request : RpcRequest} {payload : Bytes} {results : List SendResult}
    (hne : payload ≠ []) (hpayload : serializeRequest pb request = .ok payload)
    (htakes : Takes (FrameCodec.encode payload).length results) (hphase : s.phase = .idle)
    (hstate : s.state = .connected) (hpending : s.pending = []) (hstream : s.toServer = []) :
    run (Session.step pb) s (.call request :: results.map .send) =
      some { s with
        phase := .header ⟨4, [], 0⟩
        toServer := FrameCodec.encode payload
        calls := s.calls + 1
        pending := [(s.calls + 1, payload)] } := by
  obtain ⟨state, phase, toServer, incoming, calls, pending, answered, returned⟩ := s
  dsimp only at hphase hstate hpending hstream
  subst hphase hstate hpending hstream
  let asked : Session :=
    ⟨.connected, .idle, [], incoming, calls + 1, [(calls + 1, payload)], answered, returned⟩
  have hempty : payload.isEmpty = false := List.isEmpty_eq_false_iff.mpr hne
  have hcall : Session.step pb ⟨.connected, .idle, [], incoming, calls, [], answered, returned⟩
      (.call request) = some (Session.onSent pb asked
        ((Sending.start (FrameCodec.encode payload)).map (·, []) (·, []))) := by
    simp only [Session.step, Session.beginCall, hpayload, Session.post, hempty, ne_eq,
      not_true_eq_false, if_false, Bool.false_eq_true, List.nil_append, asked]
  have hon : ∀ s' result, Session.step pb (Session.onSent pb asked (.again s')) (.send result) =
      some (Session.onSent pb asked (TcpClient.sendRound s' result)) := by
    intro s' result
    exact congrArg some (SessionCalls.onSent_again s' _)
  obtain ⟨used, hused, hrun⟩ := drive_run hon (htakes.drive_sends (Nat.zero_add _))
  rw [List.append_nil] at hused
  subst hused
  have hsent : Session.onSent pb asked (.done (.complete, FrameCodec.encode payload)) =
      ⟨.connected, .header ⟨4, [], 0⟩, FrameCodec.encode payload, incoming, calls + 1,
        [(calls + 1, payload)], answered, returned⟩ := by
    simp only [Session.onSent, Session.receive, asked, ne_eq, not_true_eq_false, if_false]
    rfl
  exact run_cons_some.mpr ⟨_, hcall, hrun.trans (congrArg some hsent)⟩

/-- The client reads a whole answer off the stream. -/
theorem hears {response : RpcResponse} {reply : Bytes} {header body : List Recv}
    (hne : reply ≠ []) (hmax : reply.length ≤ TcpClient.maxMessageSize)
    (hreply : parseResponse pb reply = .ok response) (hheader : Brings 4 0 header)
    (hbody : Brings reply.length 0 body) (hphase : s.phase = .header ⟨4, [], 0⟩)
    (hincoming : s.incoming = FrameCodec.encode reply) :
    run (Session.step pb) s ((header ++ body).map .recv) =
      some { s with
        phase := .idle
        incoming := []
        returned := s.returned ++ [(s.calls, response)] } := by
  have hk : TcpClient.maxMessageSize = 10485760 := rfl
  have hlen := FrameCodec.encode_length hne
  have hpos : 0 < reply.length := List.length_pos_of_ne_nil hne
  have hsplit : (FrameCodec.encode reply).take 4 = bigEndian 4 reply.length ∧
      (FrameCodec.encode reply).drop 4 = reply := by
    have htake := FrameCodec.encode_take hne []
    have hdrop := FrameCodec.encode_drop hne []
    rw [List.append_nil] at htake hdrop
    rw [List.append_nil] at hdrop
    exact ⟨htake, hdrop⟩
  have hstart : Session.onHeader pb s
      ((Reading.start 4).map (·, s.incoming) (·, s.incoming)) = s := by
    change ({ s with incoming := s.incoming, phase := .header ⟨4, [], 0⟩ } : Session) = s
    rw [← hphase]
  have honHeader : ∀ s' outcome, Session.step pb (Session.onHeader pb s (.again s'))
      (.recv outcome) = some (Session.onHeader pb s (TcpClient.readRound s' outcome)) := by
    intro s' outcome
    exact congrArg some (SessionCalls.onHeader_again s' _)
  have hshort : 4 ≤ s.incoming.length := by
    rw [hincoming]
    omega
  have hfirst := hheader.start_reads hshort
  obtain ⟨used, hused, hrun⟩ := drive_run honHeader hfirst
  rw [List.append_nil] at hused
  subst hused
  rw [hincoming, hsplit.1, hsplit.2, ← hincoming, hstart] at hrun
  let headed : Session := { s with incoming := reply }
  have hgood : ¬ (reply.length = 0 ∨ TcpClient.maxMessageSize < reply.length) := by omega
  have hmiddle : Session.onHeader pb s (.done (.complete (bigEndian 4 reply.length), reply)) =
      Session.onBody pb headed ((Reading.start reply.length).map (·, reply) (·, reply)) := by
    have hvalue := FrameCodec.header_value (n := reply.length) (by omega)
    simp only [Session.onHeader, hvalue, if_neg hgood, headed]
  have honBody : ∀ s' outcome, Session.step pb (Session.onBody pb headed (.again s'))
      (.recv outcome) = some (Session.onBody pb headed (TcpClient.readRound s' outcome)) := by
    intro s' outcome
    exact congrArg some (SessionCalls.onBody_again s' _)
  have hsecond := hbody.start_reads (le_refl reply.length)
  rw [List.take_length, List.drop_length] at hsecond
  obtain ⟨used', hused', hrun'⟩ := drive_run honBody hsecond
  rw [List.append_nil] at hused'
  subst hused'
  have hfinish : Session.onBody pb headed (.done (.complete reply, [])) = { s with
      phase := .idle
      incoming := []
      returned := s.returned ++ [(s.calls, response)] } := by
    simp only [Session.onBody, Session.finish, hreply, headed]
  rw [hfinish, ← hmiddle] at hrun'
  rw [List.map_append]
  exact run_append_some.mpr ⟨_, hrun, hrun'⟩

end Client

section Server

theorem framesOf_single (number : Nat) (payload : Bytes) :
    framesOf [(number, payload)] = FrameCodec.encode payload := List.append_nil _

theorem read_piece (workers : Nat) (h : Refines server d s)
    (hopen : d.connection.state = .connected)
    {piece : Bytes} (hne : piece ≠ []) (hlen : piece.length ≤ Buffer.extraBufSize)
    (hdata : piece <+: d.session.toServer) :
    ∃ d', step server workers d (.read (.bytes piece)) = some d' ∧ Refines server d' s ∧
      d'.session = { d.session with toServer := d.session.toServer.drop piece.length } ∧
      d'.connection.state = .connected ∧ d'.requests = d.requests := by
  have hfit : piece.length ≤ d.connection.inputBuffer.offered := hlen.trans offered_ge
  have harrives : d.arrives (.bytes piece) := ⟨hopen, hfit, hdata⟩
  obtain ⟨b, hrun, -⟩ := handleClientRead_bytes h.live h.callback hne hfit
  let c : TcpConnection := { d.connection with
    inputBuffer := b
    effects := d.connection.effects ++
      (frames.drain (d.connection.inputBuffer.readable ++ piece)).1.map .message }
  have hstep : d.readStep (.bytes piece) = some { d with
      session := { d.session with toServer := d.session.toServer.drop piece.length }
      connection := c
      tasks := d.tasks ++ c.handed.drop d.connection.handed.length } := by
    rw [readStep, if_pos harrives, hrun]
    rfl
  exact ⟨_, hstep, h.read_step hstep, rfl, hopen, rfl⟩

/-- However the frames are cut into pieces, the event loop reads all of them. -/
theorem reads_all (workers : Nat) (h : Refines server d s) (hopen : d.connection.state = .connected)
    (pieces : List Bytes) (hstream : pieces.flatten = d.session.toServer)
    (hpieces : ∀ piece ∈ pieces, piece ≠ [] ∧ piece.length ≤ Buffer.extraBufSize) :
    ∃ d', run (step server workers) d (pieces.map fun piece => .read (.bytes piece)) = some d' ∧
      Refines server d' s ∧ d'.session = { d.session with toServer := [] } ∧
      d'.connection.state = .connected ∧ d'.requests = d.requests := by
  induction pieces generalizing d with
  | nil =>
    refine ⟨d, rfl, h, ?_, hopen, rfl⟩
    rw [List.flatten_nil] at hstream
    rw [hstream]
  | cons piece pieces ih =>
    obtain ⟨hne, hlen⟩ := hpieces piece List.mem_cons_self
    rw [List.flatten_cons] at hstream
    obtain ⟨d₁, hstep, href, hsession, hopen₁, hrequests⟩ :=
      read_piece workers h hopen hne hlen ⟨_, hstream⟩
    have hrest : pieces.flatten = d₁.session.toServer := by
      rw [hsession, ← hstream]
      exact List.drop_left.symm
    obtain ⟨d₂, hrun, href₂, hsession₂, hopen₂, hrequests₂⟩ := ih href hopen₁ hrest
      fun piece' h' => hpieces piece' (List.mem_cons_of_mem _ h')
    refine ⟨d₂, run_cons_some.mpr ⟨d₁, hstep, hrun⟩, href₂, ?_, hopen₂,
      hrequests₂.trans hrequests⟩
    rw [hsession₂, hsession]

theorem whole_request (h : Refines server d s) (hopen : d.connection.state = .connected)
    (hstate : d.session.state = .connected) (hphase : ∀ loop, d.session.phase ≠ .sending loop)
    {number : Nat} {payload : Bytes} (hpending : d.session.pending = [(number, payload)])
    (hstream : d.session.toServer = []) :
    d.tasks = [payload] ∧ d.connection.inputBuffer.readable = [] := by
  obtain ⟨front, hs, hfront⟩ := h.client
  have hpendings : s.pending = [(number, payload)] := by
    have hfield := congrArg Session.pending hs
    exact hfield.trans hpending
  have hframable := h.streamed.framable (number, payload) (by rw [hpendings]; simp)
  have hwhole : s.toServer = FrameCodec.encode payload := by
    have hstates := congrArg Session.state hs
    have hphases := congrArg Session.phase hs
    rw [h.streamed.whole (hstates.trans hstate) (fun loop hloop => hphase loop
      (hphases.symm.trans hloop)), hpendings, framesOf_single]
  have hfields : d.tasks.flatMap FrameCodec.encode ++ d.connection.inputBuffer.readable =
      FrameCodec.encode payload := by
    have hfield := congrArg Session.toServer hs
    rw [hwhole] at hfield
    rw [← hfront hopen, hfield]
    change front = front ++ d.session.toServer
    rw [hstream, List.append_nil]
  have htasks := h.tasks hopen
  rw [hpending] at htasks
  cases hcount : d.tasks with
  | nil =>
    -- a whole frame that is left unread would have been cut off
    rw [hcount, List.flatMap_nil, List.nil_append] at hfields
    have hwait := h.live.waiting
    rw [hfields] at hwait
    have hitem := verdict_encode hframable []
    rw [List.append_nil] at hitem
    cases hitem.symm.trans hwait
  | cons task tasks =>
    rw [hcount, List.map_cons, List.length_cons, List.take_succ_cons, List.map_nil,
      List.take_nil] at htasks
    obtain ⟨rfl, rfl⟩ := List.cons.inj htasks
    rw [hcount, List.flatMap_cons, List.flatMap_nil, List.append_nil] at hfields
    exact ⟨rfl, List.append_right_eq_self.mp hfields⟩

end Server

section Calls

/-- What the socket calls of one call of the stub come back with. -/
structure Schedule where
  sends : List SendResult
  pieces : List Bytes
  header : List Recv
  body : List Recv

/-- The schedule carries a request and its answer: the `::send` calls of the client, the `readv`
calls of the server and the `recv` calls of the client cut them in any way. -/
structure Schedule.Carries (schedule : Schedule) (payload reply : Bytes) : Prop where
  sends : Takes (FrameCodec.encode payload).length schedule.sends
  whole : schedule.pieces.flatten = FrameCodec.encode payload
  piece : ∀ piece ∈ schedule.pieces, piece ≠ [] ∧ piece.length ≤ Buffer.extraBufSize
  header : Brings 4 0 schedule.header
  body : Brings reply.length 0 schedule.body

/-- The schedule is one for this request and the local answer to it. -/
def Fits (server : RpcServer μ) (request : RpcRequest) (schedule : Schedule) : Prop :=
  ∀ payload reply, serializeRequest server.protobuf request = .ok payload →
    serializeResponse server.protobuf (localAnswer server request) = .ok reply →
    schedule.Carries payload reply

/-- One call: the request is sent, read and served, and its answer received. -/
def callActs (request : RpcRequest) (schedule : Schedule) : List Act :=
  (.call request :: schedule.sends.map .send) ++
    ((schedule.pieces.map fun piece => .read (.bytes piece)) ++ [.serve 0]) ++
    (schedule.header ++ schedule.body).map .recv

theorem Servable.payloads {request : RpcRequest} (servable : Servable server request)
    (hproto : Proto3 server.protobuf) (hthrows : ThrowsText server) :
    ∃ payload reply, serializeRequest server.protobuf request = .ok payload ∧
      parseRequest server.protobuf payload = .ok request ∧ payload ≠ [] ∧
      serializeResponse server.protobuf (localAnswer server request) = .ok reply ∧
      parseResponse server.protobuf reply = .ok (localAnswer server request) ∧ reply ≠ [] := by
  obtain ⟨payload, hpayload, hparse, -⟩ :=
    request_trip hproto servable.service servable.method
  have hrequest := hparse servable.ne_default
  obtain ⟨hvalid, hsuccess⟩ := localAnswer_valid hthrows servable.service servable.method
  obtain ⟨reply, hreply, hresponse⟩ := response_trip hproto hvalid hsuccess
  refine ⟨payload, reply, hpayload, hrequest, ?_, hreply, hresponse, ?_⟩
  · rintro rfl
    cases hrequest
  · rintro rfl
    cases hresponse

theorem serve_request {payload reply : Bytes} {request : RpcRequest}
    (hworkers : 0 < workers) (hparse : parseRequest server.protobuf payload = .ok request)
    (hreply : serializeResponse server.protobuf (localAnswer server request) = .ok reply)
    (hlen : reply.length ≤ TcpClient.maxMessageSize) (hne : reply ≠ [])
    (hopen : d.connection.state = .connected) (htasks : d.tasks = [payload])
    {number : Nat} (hpending : d.session.pending = [(number, payload)]) :
    step server workers d (.serve 0) = some { d with
      session := { d.session with
        incoming := d.session.incoming ++ FrameCodec.encode reply
        pending := [] }
      tasks := [] } := by
  have hk : TcpClient.maxMessageSize = 10485760 := rfl
  have hencode := FrameCodec.encode_length hne
  have hrun := handleRpcRequest_local d.connection.peerAddr hparse hreply []
  simp only [step, serveStep, htasks, List.getElem?_cons_zero, hrun, hopen, hpending, ne_eq,
    not_true_eq_false, if_false, List.nil_append, List.flatMap_cons, List.flatMap_nil,
    List.append_nil, List.eraseIdx_cons_zero]
  rw [if_neg (by omega), if_neg (by omega)]

theorem calm_of_silent (d : Deployment) {acts : List Act} (h : ∀ request, .call request ∉ acts) :
    Guarded (step server workers) (Calm server) d acts :=
  guarded_of_invariant (P := fun _ => True) (Q := fun act => ∀ request, act ≠ .call request)
    (fun _ _ _ _ _ _ => trivial)
    (fun d act _ hact => by
      cases act with
      | call request => exact absurd rfl (hact request)
      | _ => trivial) trivial
    (by
      rintro act hact request rfl
      exact h request hact)

/-- A call waits for the answer to its request, with the request on the stream. -/
def awaiting (d : Deployment) (request : RpcRequest) (payload : Bytes) : Deployment :=
  { d with
    session := { d.session with
      phase := .header ⟨4, [], 0⟩
      toServer := FrameCodec.encode payload
      calls := d.session.calls + 1
      pending := [(d.session.calls + 1, payload)] }
    requests := d.requests ++ [request] }

theorem client_run {ι : Type} (own : ι → Session.Act) (act : ι → Act)
    (hact : ∀ d x, step server workers d (act x) =
      (Session.step server.protobuf d.session (own x)).map fun session =>
        { d with session := session })
    {xs : List ι} {session : Session}
    (h : run (Session.step server.protobuf) d.session (xs.map own) = some session) :
    run (step server workers) d (xs.map act) = some { d with session := session } := by
  induction xs generalizing d with
  | nil =>
    cases h
    rfl
  | cons x xs ih =>
    obtain ⟨next, hnext, hrest⟩ := run_cons_some.mp h
    have hstep : step server workers d (act x) = some { d with session := next } := by
      rw [hact, hnext]
      rfl
    exact run_cons_some.mpr ⟨_, hstep, ih (d := { d with session := next }) hrest⟩

theorem asks_awaiting (server : RpcServer μ) (workers : Nat) (atRest : AtRest d)
    {request : RpcRequest} {payload : Bytes} {results : List SendResult} (hne : payload ≠ [])
    (hpayload : serializeRequest server.protobuf request = .ok payload)
    (htakes : Takes (FrameCodec.encode payload).length results) :
    run (step server workers) d (.call request :: results.map .send) =
      some (awaiting d request payload) := by
  obtain ⟨session, hcall, hsend⟩ := run_cons_some.mp (asks hne hpayload htakes atRest.phase
    atRest.state atRest.pending atRest.toServer)
  refine run_cons_some.mpr ⟨{ d with session := session, requests := d.requests ++ [request] }, ?_,
    client_run (d := { d with session := session, requests := d.requests ++ [request] })
      .send .send (fun _ _ => rfl) hsend⟩
  rw [step, hcall]
  rfl

theorem serves_awaiting (hworkers : 0 < workers) (atRest : AtRest d) {request : RpcRequest}
    {payload reply : Bytes} {schedule : Schedule} (carries : schedule.Carries payload reply)
    (href : Refines server (awaiting d request payload) s)
    (hparse : parseRequest server.protobuf payload = .ok request)
    (hreply : serializeResponse server.protobuf (localAnswer server request) = .ok reply)
    (hlen : reply.length ≤ TcpClient.maxMessageSize) (hne : reply ≠ []) :
    ∃ d', run (step server workers) (awaiting d request payload)
        ((schedule.pieces.map fun piece => .read (.bytes piece)) ++ [.serve 0]) = some d' ∧
      d'.session = { d.session with
        phase := .header ⟨4, [], 0⟩
        toServer := []
        incoming := FrameCodec.encode reply
        calls := d.session.calls + 1
        pending := [] } ∧
      d'.connection.state = .connected ∧ d'.connection.inputBuffer.readable = [] ∧
      d'.tasks = [] ∧ d'.requests = d.requests ++ [request] := by
  obtain ⟨d₂, hreads, href₂, hsession, hopen, hrequests⟩ :=
    reads_all workers href atRest.open_ schedule.pieces carries.whole carries.piece
  have hpending : d₂.session.pending = [(d.session.calls + 1, payload)] := by rw [hsession]; rfl
  have hstate : d₂.session.state = .connected := by
    rw [hsession]
    exact atRest.state
  have hphase : d₂.session.phase = .header ⟨4, [], 0⟩ := by rw [hsession]; rfl
  obtain ⟨htasks, hreadable⟩ := whole_request href₂ hopen hstate
    (fun loop hloop => by cases hphase.symm.trans hloop) hpending (by rw [hsession])
  have hserve := serve_request hworkers hparse hreply hlen hne hopen htasks hpending
  refine ⟨_, run_append_some.mpr ⟨d₂, hreads, run_cons_some.mpr ⟨_, hserve, rfl⟩⟩, ?_, hopen,
    hreadable, rfl, hrequests⟩
  dsimp only
  rw [hsession]
  dsimp only [awaiting]
  rw [atRest.incoming, List.nil_append]

/-- A call between two others runs to its end and returns the local answer. -/
theorem call_completes (hproto : Proto3 server.protobuf) (hsafe : ErrorsSerialize server)
    (hthrows : ThrowsText server) (hworkers : 0 < workers) (atRest : AtRest d)
    (settled : Settled server d s) {request : RpcRequest} (servable : Servable server request)
    {schedule : Schedule} (fits : Fits server request schedule) :
    ∃ d', run (step server workers) d (callActs request schedule) = some d' ∧
      Guarded (step server workers) (Calm server) d (callActs request schedule) ∧
      AtRest d' ∧ d'.requests = d.requests ++ [request] ∧
      d'.session.returned = d.session.returned ++
        [(d.requests.length + 1, localAnswer server request)] := by
  obtain ⟨payload, reply, hpayload, hrequest, hne, hreply, hresponse, hnereply⟩ :=
    servable.payloads hproto hthrows
  have hmax := servable.reply reply hreply
  have carries := fits payload reply hpayload hreply
  have hcalm : Guarded (step server workers) (Calm server) d (callActs request schedule) := by
    refine ⟨atRest.calm servable, fun t _ => calm_of_silent t ?_⟩
    simp
  have hasks := asks_awaiting server workers atRest hne hpayload carries.sends
  obtain ⟨s₁, settled₁⟩ := settled.run hsafe hcalm.append_left.append_left hasks
  obtain ⟨d₂, hserves, hsession, hopen, hreadable, htasks, hrequests⟩ :=
    serves_awaiting hworkers atRest carries settled₁.refines hrequest hreply hmax hnereply
  have hphase : d₂.session.phase = .header ⟨4, [], 0⟩ := by rw [hsession]
  have hincoming : d₂.session.incoming = FrameCodec.encode reply := by rw [hsession]
  have hhears : run (step server workers) d₂
      ((schedule.header ++ schedule.body).map .recv) = some _ :=
    client_run .recv .recv (fun _ _ => rfl)
      (hears hnereply hmax hresponse carries.header carries.body hphase hincoming)
  refine ⟨_, run_append_some.mpr ⟨_, run_append_some.mpr ⟨_, hasks, hserves⟩, hhears⟩, hcalm, ?_,
    hrequests, ?_⟩
  · refine ⟨rfl, ?_, hopen, htasks, hreadable, ?_, rfl, ?_⟩
    · rw [hsession]
      exact atRest.state
    · rw [hsession]
    · rw [hsession]
  · dsimp only
    rw [hsession, settled.refines.counted]

theorem calls_return (hproto : Proto3 server.protobuf) (hsafe : ErrorsSerialize server)
    (hthrows : ThrowsText server) (hworkers : 0 < workers) {calls : List (RpcRequest × Schedule)}
    (hservable : ∀ call ∈ calls, Servable server call.1 ∧ Fits server call.1 call.2)
    (atRest : AtRest d) (settled : Settled server d s) :
    ∃ d', run (step server workers) d (calls.flatMap fun call => callActs call.1 call.2) = some d' ∧
      d'.requests = d.requests ++ calls.map (·.1) ∧
      d'.session.returned = d.session.returned ++
        ((calls.map (·.1)).zipIdx (d.requests.length + 1)).map fun p =>
          (p.2, localAnswer server p.1) := by
  induction calls generalizing d s with
  | nil => exact ⟨d, rfl, (List.append_nil _).symm, (List.append_nil _).symm⟩
  | cons call calls ih =>
    obtain ⟨servable, fits⟩ := hservable call List.mem_cons_self
    obtain ⟨d₁, hrun, hcalm, atRest₁, hrequests, hreturned⟩ :=
      call_completes hproto hsafe hthrows hworkers atRest settled servable fits
    obtain ⟨s₁, settled₁⟩ := settled.run hsafe hcalm hrun
    obtain ⟨d₂, hrun₂, hrequests₂, hreturned₂⟩ :=
      ih (fun call' h' => hservable call' (List.mem_cons_of_mem _ h')) atRest₁ settled₁
    refine ⟨d₂, ?_, ?_, ?_⟩
    · rw [List.flatMap_cons]
      exact run_append_some.mpr ⟨d₁, hrun, hrun₂⟩
    · rw [hrequests₂, hrequests, List.append_assoc, List.singleton_append, List.map_cons]
    · rw [hreturned₂, hreturned, hrequests, List.length_append, List.length_singleton,
        List.map_cons, List.zipIdx_cons, List.map_cons, List.append_assoc, List.singleton_append]

theorem takes_bytewise (n : Nat) : Takes n (List.replicate n (.sent 1)) := by
  induction n with
  | zero => exact .done
  | succ n ih =>
    rw [Nat.add_comm, Nat.add_comm 1, List.replicate_succ, Nat.add_comm]
    exact .part Nat.one_pos ih

theorem brings_bytewise (n retry : Nat) : Brings n retry (List.replicate n (.ready 1)) := by
  induction n generalizing retry with
  | zero => exact .done
  | succ n ih =>
    rw [List.replicate_succ, Nat.add_comm]
    exact .part Nat.one_pos (ih 0)

theorem pieces_bytewise (xs : Bytes) : (xs.map ([·])).flatten = xs := by
  induction xs with
  | nil => rfl
  | cons x xs ih => rw [List.map_cons, List.flatten_cons, ih, List.singleton_append]

/-- One byte at a time. -/
def bytewise (payload reply : Bytes) : Schedule where
  sends := List.replicate (FrameCodec.encode payload).length (.sent 1)
  pieces := (FrameCodec.encode payload).map ([·])
  header := List.replicate 4 (.ready 1)
  body := List.replicate reply.length (.ready 1)

theorem bytewise_carries (payload reply : Bytes) :
    (bytewise payload reply).Carries payload reply where
  sends := takes_bytewise _
  whole := pieces_bytewise _
  piece piece hpiece := by
    obtain ⟨x, -, rfl⟩ := List.mem_map.mp hpiece
    exact ⟨List.cons_ne_nil _ _, by simp [Buffer.extraBufSize]⟩
  header := brings_bytewise 4 0
  body := brings_bytewise _ 0

theorem Servable.exists_fits {request : RpcRequest} (servable : Servable server request)
    (hproto : Proto3 server.protobuf) (hthrows : ThrowsText server) :
    ∃ schedule, Fits server request schedule := by
  obtain ⟨payload, reply, hpayload, -, -, hreply, -⟩ := servable.payloads hproto hthrows
  refine ⟨bytewise payload reply, ?_⟩
  intro payload' reply' hpayload' hreply'
  obtain rfl := Except.ok.inj (hpayload.symm.trans hpayload')
  obtain rfl := Except.ok.inj (hreply.symm.trans hreply')
  exact bytewise_carries payload reply

theorem wire_servable : Servable wireServer ⟨7, text "A", text "B", [1]⟩ where
  service := ⟨"A", rfl⟩
  method := ⟨"B", rfl⟩
  ne_default := by decide
  sized payload hpayload := by
    cases hpayload
    decide
  reply reply hreply := by
    cases hreply
    decide

end Calls

end Mprpc.CallProgress
