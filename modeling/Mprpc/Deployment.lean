import Mprpc.RpcServer
import Mprpc.Session
import Mprpc.TcpServer

namespace Mprpc

open Transport RpcProtocolHelper RpcServer TcpServer

/-- A stub in direct mode and an RPC server that has accepted its connection. The streams
between them are those of the session, whose `pending` are the requests without an answer;
`tasks` are the frames that wait for a worker of the server's pool. The request of call `n`
is the one at place `n - 1` of `requests`. -/
structure Deployment where
  session : Session
  connection : TcpConnection
  tasks : List Bytes
  requests : List RpcRequest
deriving DecidableEq, Repr

namespace Deployment

inductive Act
  | call (request : RpcRequest)
  | send (result : SendResult)
  | recv (outcome : Recv)
  | read (result : Readv)
  | serve (k : Nat)
deriving DecidableEq, Repr

def initial (sockfd : Int) (peerAddr : Text) : Deployment :=
  ⟨Session.initial, accepted sockfd peerAddr, [], []⟩

/-- What `readv` can come back with: bytes that are under way, in their order. -/
def arrives (d : Deployment) (result : Readv) : Prop :=
  d.connection.state = .connected ∧ result.size ≤ d.connection.inputBuffer.offered ∧
    match result with
    | .bytes data => data <+: d.session.toServer
    | .error _ => True

instance (d : Deployment) (result : Readv) : Decidable (d.arrives result) := by
  unfold arrives
  cases result <;> infer_instance

variable {μ : Type} (server : RpcServer μ) (workers : Nat)

/-- The event loop reads from the connection; the message callback hands every frame to
the thread pool. -/
def readStep (d : Deployment) (result : Readv) : Option Deployment :=
  if d.arrives result then
    match (handleClientRead result).run d.connection with
    | .ok _ c =>
      some { d with
        session := { d.session with toServer := d.session.toServer.drop result.size }
        connection := c
        tasks := d.tasks ++ c.handed.drop d.connection.handed.length }
    | .error _ _ => none
  else none

/-- A worker is done with a frame. The pool starts its tasks in their order, so that it is
one of the oldest, as many as there are workers. On a connection that is closed `send` returns
false, and what a task throws stays in its future. -/
def serveStep (d : Deployment) (k : Nat) : Option Deployment :=
  match d.tasks[k]? with
  | none => none
  | some data =>
    if workers ≤ k then none
    else
      match (server.handleRpcRequest (some d.connection.peerAddr) data).run [] with
      | .error _ _ => some { d with tasks := d.tasks.eraseIdx k }
      | .ok _ sent =>
        if d.connection.state ≠ .connected then some { d with tasks := d.tasks.eraseIdx k }
        else
          let written := sent.flatMap (·.frame)
          if 2 ^ 31 ≤ written.length then none
          else
            some { d with
              session := { d.session with
                incoming := d.session.incoming ++ written
                pending := d.session.pending.eraseIdx k }
              tasks := d.tasks.eraseIdx k }

/-- No protobuf message has 2 GiB. -/
def step (d : Deployment) : Act → Option Deployment
  | .call request =>
    (Session.step server.protobuf d.session (.call request)).map fun session =>
      { d with session := session, requests := d.requests ++ [request] }
  | .send result =>
    (Session.step server.protobuf d.session (.send result)).map fun session =>
      { d with session := session }
  | .recv outcome =>
    (Session.step server.protobuf d.session (.recv outcome)).map fun session =>
      { d with session := session }
  | .read result => d.readStep result
  | .serve k => d.serveStep server workers k

end Deployment

end Mprpc
