import Mprpc.Buffer
import Mprpc.SocketLoops

namespace Mprpc

open Transport Library.Loop

/-- What a connection does to the world outside it, in order. -/
inductive Effect
  | message (frame : Bytes)
  | error (message : Text)
  | wrote (data : Bytes)
  | writeComplete
  | closed (fd : Int)
  | unregistered (fd : Int)
  | removed
deriving DecidableEq, Repr

/-- The frame that reaches the message callback, if any. -/
def Effect.handedFrame : Effect → Option Bytes
  | .message frame => some frame
  | _ => none

structure TcpConnection where
  sockfd : Int
  peerAddr : Text
  state : ConnectionState
  inputBuffer : Buffer
  messageCallback : Bool
  writeCompleteCallback : Bool
  errorCallback : Bool
  effects : List Effect
deriving DecidableEq, Repr

namespace TcpConnection

abbrev Action := EStateM Fault TcpConnection

def maxFrameSize : Nat := 10 * 1024 * 1024

def new (sockfd : Int) (peerAddr : Text) : TcpConnection :=
  ⟨sockfd, peerAddr, .connected, Buffer.new Buffer.kInitialSize, false, false, false, []⟩

def emit (e : Effect) : Action Unit := modify fun c => { c with effects := c.effects ++ [e] }

def onInput {α : Type} (x : Buffer.Action α) : Action α := fun c =>
  match x.run c.inputBuffer with
  | .ok a b => .ok a { c with inputBuffer := b }
  | .error e b => .error e { c with inputBuffer := b }

def close : Action Unit := do
  let c ← get
  if c.state ≠ .disconnected then
    modify fun c => { c with state := .disconnecting }
    if c.sockfd ≠ -1 then
      emit (.closed c.sockfd)
      modify fun c => { c with sockfd := -1 }
    modify fun c => { c with state := .disconnected }

def handleError (errorMsg : Text) : Action Unit := do
  modify fun c => { c with state := .disconnected }
  let c ← get
  if c.errorCallback then emit (.error errorMsg)

/-- How far a call of `send` has come, from one `::send` to the next. -/
inductive SendCall
  | sending (loop : Sending)
  | returned (sent : Bool)
deriving DecidableEq, Repr

/-- What follows a round of the loop in `send`. -/
def afterRound : Progress Sending SendOutcome → Action SendCall
  | .again loop => return .sending loop
  | .done .complete => do
    let c ← get
    if c.writeCompleteCallback then emit .writeComplete
    return .returned true
  | .done (.failed errorMsg) => do
    handleError errorMsg
    return .returned false

/-- `send` up to its first `::send`. -/
def beginSend (data : Bytes) : Action SendCall := do
  let c ← get
  if c.state ≠ .connected then return .returned false
  afterRound (Sending.start data)

def resumeSend (loop : Sending) (result : SendResult) : Action SendCall := do
  emit (.wrote (loop.put result))
  afterRound (loop.attempt result)

/-- Carry a call on through the given results; it may need more of them. -/
def resumeAll : SendCall → List SendResult → Action SendCall
  | .sending loop, result :: results => do
    let call ← resumeSend loop result
    resumeAll call results
  | call, _ => return call

def send (data : Bytes) (results : List SendResult) : Action SendCall := do
  let call ← beginSend data
  resumeAll call results

/-- One complete frame, or `none` where the code returns false. A length that no
peer should send empties the buffer. -/
def decodeFrame : Action (Option Bytes) := do
  let c ← get
  if c.inputBuffer.readableBytes < 4 then return none
  let lengthHost ← onInput (Buffer.peekInt 4)
  if lengthHost = 0 ∨ maxFrameSize < lengthHost then
    onInput (modify Buffer.retrieveAll)
    return none
  let c ← get
  if c.inputBuffer.readableBytes < (lengthHost + 4) % 2 ^ 32 then return none
  onInput (modify (Buffer.retrieve · 4))
  let frameData ← onInput (Buffer.retrieveAsVector lengthHost)
  return some frameData

def writtenBytes : Effect → Bytes
  | .wrote data => data
  | _ => []

/-- The bytes put on the wire so far. -/
def wire (c : TcpConnection) : Bytes := c.effects.flatMap writtenBytes

def messagesOf (effects : List Effect) : List Bytes := effects.filterMap Effect.handedFrame

/-- The frames handed to the message callback so far. -/
def handed (c : TcpConnection) : List Bytes := messagesOf c.effects

theorem messagesOf_append (effects : List Effect) (fs : List Bytes) :
    messagesOf (effects ++ fs.map .message) = messagesOf effects ++ fs := by
  have h : Effect.handedFrame ∘ Effect.message = some := rfl
  rw [messagesOf, List.filterMap_append, List.filterMap_map, h, List.filterMap_some]
  rfl

theorem emit_run (e : Effect) (c : TcpConnection) :
    (emit e).run c = .ok () { c with effects := c.effects ++ [e] } := rfl

theorem wire_emit (c : TcpConnection) (e : Effect) :
    wire { c with effects := c.effects ++ [e] } = wire c ++ writtenBytes e := by
  simp [wire, List.flatMap_append]

/-- Where a call stands after a round. -/
def callOf : Progress Sending SendOutcome → SendCall
  | .again loop => .sending loop
  | .done .complete => .returned true
  | .done (.failed _) => .returned false

theorem afterRound_run (p : Progress Sending SendOutcome) (c : TcpConnection) :
    ∃ c', (afterRound p).run c = .ok (callOf p) c' ∧ wire c' = wire c := by
  cases p with
  | again loop => exact ⟨c, rfl, rfl⟩
  | done outcome =>
    cases outcome with
    | complete =>
      by_cases hcb : c.writeCompleteCallback
      · refine ⟨{ c with effects := c.effects ++ [.writeComplete] }, ?_, ?_⟩
        · simp only [afterRound, EStateM.run_bind, EStateM.run_get, EStateM.run_pure, if_pos hcb,
            emit_run, callOf]
        · exact (wire_emit c _).trans (List.append_nil _)
      · exact ⟨c, by simp [afterRound, hcb, callOf], rfl⟩
    | failed errorMsg =>
      by_cases hcb : c.errorCallback
      · refine ⟨{ { c with state := .disconnected } with
          effects := c.effects ++ [.error errorMsg] }, ?_, ?_⟩
        · simp only [afterRound, handleError, EStateM.run_bind, EStateM.run_get, EStateM.run_pure,
            EStateM.run_modify, if_pos hcb, emit_run, callOf]
        · exact (wire_emit { c with state := .disconnected } _).trans (List.append_nil _)
      · exact ⟨{ c with state := .disconnected },
          by simp [afterRound, handleError, hcb, callOf], rfl⟩

theorem beginSend_run (data : Bytes) (c : TcpConnection) :
    ∃ call c', (beginSend data).run c = .ok call c' ∧ wire c' = wire c ∧
      (call = .returned false ∨ call = callOf (Sending.start data)) := by
  by_cases hs : c.state = .connected
  · obtain ⟨c', hrun, hwire⟩ := afterRound_run (Sending.start data) c
    exact ⟨_, c', by simp [beginSend, hs, hrun], hwire, .inr rfl⟩
  · exact ⟨_, c, by simp [beginSend, hs], rfl, .inl rfl⟩

theorem resumeSend_run (loop : Sending) (result : SendResult) (c : TcpConnection) :
    ∃ c', (resumeSend loop result).run c = .ok (callOf (loop.attempt result)) c' ∧
      wire c' = wire c ++ loop.put result := by
  obtain ⟨c', hrun, hwire⟩ := afterRound_run (loop.attempt result)
    { c with effects := c.effects ++ [.wrote (loop.put result)] }
  refine ⟨c', by simp [resumeSend, emit_run, hrun], ?_⟩
  rw [hwire, wire_emit, writtenBytes]

end TcpConnection

end Mprpc
