import Mprpc.FrameCodec
import Mprpc.Library.Transition
import Mprpc.RpcProtocolHelper
import Mprpc.TcpClient

namespace Mprpc

open Transport RpcProtocolHelper Library.ByteOrder Library.Loop Library.Transition

/-- A call of `sendRpcRequest` stands in one of its three socket loops. -/
inductive Phase
  | idle
  | sending (loop : Sending)
  | header (loop : Reading)
  | body (loop : Reading)
deriving DecidableEq, Repr

/-- A stub in direct mode and a server, joined by two streams of bytes. The calls
are numbered in order; `pending` are the requests that the server is yet to
answer, and `answered` and `returned` record the answers on either side. -/
structure Session where
  state : ConnectionState
  phase : Phase
  toServer : Bytes
  incoming : Bytes
  calls : Nat
  pending : List (Nat × Bytes)
  answered : List (Nat × Bytes)
  returned : List (Nat × RpcResponse)
deriving DecidableEq, Repr

namespace Session

inductive Act
  | call (request : RpcRequest)
  | send (result : SendResult)
  | answer (reply : Bytes)
  | recv (outcome : Recv)

def initial : Session := ⟨.connected, .idle, [], [], 0, [], [], []⟩

variable (pb : Protobuf) (s : Session)

/-- The end of a call: it returns what it received, or throws. -/
def finish (received : Option Bytes) : Session :=
  match received with
  | none => { s with phase := .idle }
  | some data =>
    match parseResponse pb data with
    | .error _ => { s with phase := .idle }
    | .ok response => { s with phase := .idle, returned := s.returned ++ [(s.calls, response)] }

def lost : Session := finish pb { s with state := .disconnected } none

def onBody : Progress (Reading × Bytes) (ReadOutcome × Bytes) → Session
  | .again (loop, incoming) => { s with incoming := incoming, phase := .body loop }
  | .done (.complete data, incoming) => finish pb { s with incoming := incoming } (some data)
  | .done (.timedOut, incoming) => finish pb { s with incoming := incoming } none
  | .done (.disconnected, incoming) => lost pb { s with incoming := incoming }

def onHeader : Progress (Reading × Bytes) (ReadOutcome × Bytes) → Session
  | .again (loop, incoming) => { s with incoming := incoming, phase := .header loop }
  | .done (.complete lengthBytes, incoming) =>
    let messageLength := byteSwap 4 (ofLittleEndian lengthBytes)
    if messageLength = 0 ∨ TcpClient.maxMessageSize < messageLength then
      finish pb { s with incoming := incoming } none
    else
      onBody pb { s with incoming := incoming }
        ((Reading.start messageLength).map (·, incoming) (·, incoming))
  | .done (.timedOut, incoming) => finish pb { s with incoming := incoming } none
  | .done (.disconnected, incoming) => lost pb { s with incoming := incoming }

def receive : Session :=
  if s.state ≠ .connected then finish pb s none
  else onHeader pb s ((Reading.start 4).map (·, s.incoming) (·, s.incoming))

def onSent : Progress (Sending × Bytes) (SendOutcome × Bytes) → Session
  | .again (loop, toServer) => { s with toServer := toServer, phase := .sending loop }
  | .done (.complete, toServer) => receive pb { s with toServer := toServer }
  | .done (.failed _, toServer) => lost pb { s with toServer := toServer }

/-- A request without bytes has no frame, so the server never sees it. -/
def post (payload : Bytes) : Session :=
  if payload.isEmpty then s else { s with pending := s.pending ++ [(s.calls, payload)] }

def beginCall (request : RpcRequest) : Session :=
  match serializeRequest pb request with
  | .error _ => finish pb s none
  | .ok payload =>
    if s.state ≠ .connected then finish pb s none
    else
      onSent pb (post s payload)
        ((Sending.start (FrameCodec.encode payload)).map (·, s.toServer) (·, s.toServer))

/-- The server takes the frame of a request off its stream and sends an answer. -/
def answer (number : Nat) (payload : Bytes) (pending : List (Nat × Bytes)) (reply : Bytes) :
    Session :=
  { s with
    toServer := s.toServer.drop (FrameCodec.encode payload).length
    incoming := s.incoming ++ FrameCodec.encode reply
    pending := pending
    answered := s.answered ++ [(number, reply)] }

/-- The server answers the first request once all of its frame has arrived. No
protobuf message has 2 GiB. -/
def step (s : Session) : Act → Option Session
  | .call request =>
    match s.phase with
    | .idle => some (beginCall pb { s with calls := s.calls + 1 } request)
    | _ => none
  | .send result =>
    match s.phase with
    | .sending loop => some (onSent pb s (TcpClient.sendRound (loop, s.toServer) result))
    | _ => none
  | .answer reply =>
    match s.pending with
    | [] => none
    | (number, payload) :: pending =>
      if (FrameCodec.encode payload).isPrefixOf s.toServer ∧ reply.length < 2 ^ 31 then
        some (answer s number payload pending reply)
      else none
  | .recv outcome =>
    match s.phase with
    | .header loop => some (onHeader pb s (TcpClient.readRound (loop, s.incoming) outcome))
    | .body loop => some (onBody pb s (TcpClient.readRound (loop, s.incoming) outcome))
    | _ => none

/-- What a step can do, with what it needs of the state before it. -/
inductive Moves (s : Session) : Act → Session → Prop
  | call {request} (hphase : s.phase = .idle) :
    Moves s (.call request) (beginCall pb { s with calls := s.calls + 1 } request)
  | send {result loop} (hphase : s.phase = .sending loop) :
    Moves s (.send result) (onSent pb s (TcpClient.sendRound (loop, s.toServer) result))
  | answer {reply number payload pending} (hpending : s.pending = (number, payload) :: pending)
    (hframe : FrameCodec.encode payload <+: s.toServer) (hlen : reply.length < 2 ^ 31) :
    Moves s (.answer reply) (answer s number payload pending reply)
  | header {outcome loop} (hphase : s.phase = .header loop) :
    Moves s (.recv outcome) (onHeader pb s (TcpClient.readRound (loop, s.incoming) outcome))
  | body {outcome loop} (hphase : s.phase = .body loop) :
    Moves s (.recv outcome) (onBody pb s (TcpClient.readRound (loop, s.incoming) outcome))

theorem moves_of_step {pb : Protobuf} {s t : Session} {act : Act} (h : step pb s act = some t) :
    Moves pb s act t := by
  cases act with
  | call request =>
    cases hphase : s.phase <;> simp only [step, hphase] at h <;> cases h
    exact hphase ▸ .call hphase
  | send result =>
    cases hphase : s.phase <;> simp only [step, hphase] at h <;> cases h
    exact .send hphase
  | answer reply =>
    cases hpending : s.pending with
    | nil => simp [step, hpending] at h
    | cons p pending =>
      simp only [step, hpending] at h
      split at h
      · rename_i henabled
        cases h
        exact .answer hpending (List.isPrefixOf_iff_prefix.mp henabled.1) henabled.2
      · cases h
  | recv outcome =>
    cases hphase : s.phase <;> simp only [step, hphase] at h <;> cases h
    · exact .header hphase
    · exact .body hphase

end Session

end Mprpc
