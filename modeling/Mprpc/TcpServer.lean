import Mprpc.TcpConnection

namespace Mprpc.TcpServer

open Transport TcpConnection

def maxConnections : Nat := 1000

/-- What happens to the connection itself: it leaves the epoll set and the list
of connections, and is closed. -/
def handleClientClose : Action Unit := do
  let c ← get
  emit (.unregistered c.sockfd)
  emit .removed
  close

/-- The loop of `handleClientRead`; the fuel bounds its number of rounds. -/
def decodeLoop : Nat → Action Unit
  | 0 => throw .outOfFuel
  | fuel + 1 => do
    match ← decodeFrame with
    | none => return ()
    | some frameData =>
      let c ← get
      if c.messageCallback then emit (.message frameData)
      decodeLoop fuel

def handleClientRead (result : Readv) : Action Unit := do
  let (n, savedErrno) ← onInput (Buffer.readFromFd result)
  if 0 < n then
    let c ← get
    decodeLoop (c.inputBuffer.readableBytes + 1)
  else if n = 0 then
    handleClientClose
  else if savedErrno ≠ some .eagain ∧ savedErrno ≠ some .ewouldblock then
    handleClientClose

/-- An event of epoll: what `readv` returns if it has `EPOLLIN`, and whether it
has `EPOLLERR` or `EPOLLHUP`. -/
def handleClientEvent (readable : Option Readv) (hangUp : Bool) : Action Unit := do
  match readable with
  | some result => handleClientRead result
  | none => pure ()
  if hangUp then handleClientClose

/-- One call of `handleClientRead` for each `readv` result. -/
def serve : List Readv → Action Unit
  | [] => return ()
  | result :: results => do
    handleClientRead result
    serve results

/-- A connection as `handleNewConnection` leaves it: the callbacks of the RPC
server are installed. -/
def accepted (sockfd : Int) (peerAddr : Text) : TcpConnection :=
  { TcpConnection.new sockfd peerAddr with messageCallback := true, errorCallback := true }

end Mprpc.TcpServer
