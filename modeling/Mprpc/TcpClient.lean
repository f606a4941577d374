import Mprpc.Buffer
import Mprpc.SocketLoops

namespace Mprpc

open Transport Library.ByteOrder Library.Loop

/-- A client together with the kernel's side of its socket: the bytes under way
in both directions, and what the coming calls of `recv` and `send` meet. -/
structure TcpClient where
  sockfd : Int
  state : ConnectionState
  incoming : Bytes
  outgoing : Bytes
  recvs : List Recv
  sends : List SendResult
deriving DecidableEq, Repr

namespace TcpClient

/-- No value means that the call still runs when the outcomes are used up. -/
abbrev Action := StateT TcpClient Option

def maxMessageSize : Nat := 10 * 1024 * 1024

def handleError (_errorMsg : Text) : Action Unit :=
  modify fun c => { c with state := .disconnected }

def readRound (s : Reading × Bytes) (outcome : Recv) :
    Progress (Reading × Bytes) (ReadOutcome × Bytes) :=
  let (received, incoming) := recv s.1.remaining s.2 outcome
  (s.1.attempt received).map (·, incoming) (·, incoming)

def readExactly (length : Nat) : Action (Option Bytes) := do
  let c ← get
  let loop := (Reading.start length).map (·, c.incoming) (·, c.incoming)
  let ((result, incoming), recvs) ← drive readRound loop c.recvs
  set { c with incoming := incoming, recvs := recvs }
  match result with
  | .complete data => return some data
  | .timedOut => return none
  | .disconnected =>
    modify fun c => { c with state := .disconnected }
    return none

def receive : Action (Option Bytes) := do
  let c ← get
  if c.state ≠ .connected then return none
  match ← readExactly 4 with
  | none => return none
  | some lengthBytes =>
    let messageLength := byteSwap 4 (ofLittleEndian lengthBytes)
    if messageLength = 0 ∨ maxMessageSize < messageLength then return none
    readExactly messageLength

def sendRound (s : Sending × Bytes) (result : SendResult) :
    Progress (Sending × Bytes) (SendOutcome × Bytes) :=
  (s.1.attempt result).map (·, s.2 ++ s.1.put result) (·, s.2 ++ s.1.put result)

def handleWrite (data : Bytes) : Action Bool := do
  let c ← get
  if c.state ≠ .connected then return false
  let loop := (Sending.start data).map (·, c.outgoing) (·, c.outgoing)
  let ((outcome, outgoing), sends) ← drive sendRound loop c.sends
  set { c with outgoing := outgoing, sends := sends }
  match outcome with
  | .complete => return true
  | .failed errorMsg =>
    handleError errorMsg
    return false

def send (data : Bytes) : Action Bool := handleWrite data

section Sends

variable {c : TcpClient} {data : Bytes}

theorem send_run (hs : c.state = .connected) :
    (send data).run c =
      (drive sendRound ((Sending.start data).map (·, c.outgoing) (·, c.outgoing)) c.sends).map
        fun ((outcome, outgoing), sends) =>
          match outcome with
          | .complete => (true, { c with outgoing := outgoing, sends := sends })
          | .failed _ =>
            (false, { c with outgoing := outgoing, sends := sends, state := .disconnected }) := by
  cases hd : drive sendRound ((Sending.start data).map (·, c.outgoing) (·, c.outgoing))
      c.sends with
  | none => simp [send, handleWrite, hs, hd]
  | some result =>
    obtain ⟨⟨outcome, outgoing⟩, sends⟩ := result
    cases outcome <;> simp [send, handleWrite, handleError, hs, hd]

theorem send_unconnected (hs : c.state ≠ .connected) : (send data).run c = some (false, c) := by
  simp [send, handleWrite, hs]

end Sends

end TcpClient

end Mprpc
