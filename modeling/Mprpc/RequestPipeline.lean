import Mprpc.RpcServer
import Mprpc.TcpServer
import Mprpc.ThreadPool

namespace Mprpc

open Transport RpcServer TcpServer

/-- The thread of the event loop and the workers behind it. `handing` are the frames of the
last read that the loop has not submitted yet. Task `i` of the pool is the call
`handleRpcRequest` on the connection and the data at place `i` of `jobs`; `sent` are the calls
of `send`, with the place of their connection. -/
structure RequestPipeline where
  pool : ThreadPool
  connections : List TcpConnection
  handing : List (Nat × Bytes)
  jobs : List (Nat × Bytes)
  sent : List (Nat × Sent)
deriving DecidableEq, Repr

namespace RequestPipeline

inductive Act
  | accept (sockfd : Int) (peerAddr : Text)
  | read (k : Nat) (result : Readv)
  | sendFails (k : Nat) (errorMsg : Text)
  | submit
  | enqueue (i : Nat)
  | notifyOne (i : Nat) (woken : Option ThreadPool.Sleeper)
  | worker (w : Nat)
deriving DecidableEq, Repr

def start (requested hardwareConcurrency : Nat) : RequestPipeline :=
  ⟨ThreadPool.new requested hardwareConcurrency, [], [], [], []⟩

/-- The loop is not inside a call of `submit`. -/
def Outside (s : RequestPipeline) : Prop :=
  ∀ submitter ∈ s.pool.submitters, submitter = .returned

instance (s : RequestPipeline) : Decidable s.Outside := by
  unfold Outside
  infer_instance

/-- The loop is back in `epoll_wait`. -/
def Waiting (s : RequestPipeline) : Prop := s.handing = [] ∧ s.Outside

instance (s : RequestPipeline) : Decidable s.Waiting := by
  unfold Waiting
  infer_instance

/-- Events come for connections in the list only. -/
def Delivers (c : TcpConnection) (result : Readv) : Prop :=
  .removed ∉ c.effects ∧ result.size ≤ c.inputBuffer.offered

instance (c : TcpConnection) (result : Readv) : Decidable (Delivers c result) := by
  unfold Delivers
  infer_instance

variable {μ : Type} (server : RpcServer μ)

/-- What a call of `handleRpcRequest` sends. -/
def responses (peerAddr : Text) (data : Bytes) : List Sent :=
  match (server.handleRpcRequest (some peerAddr) data).run [] with
  | .ok _ sent => sent
  | .error _ sent => sent

/-- The loop calls `handleMessage` for a frame as soon as it has cut it off, which is seen
nowhere but in the queue of the pool. -/
def readStep (s : RequestPipeline) (k : Nat) (result : Readv) : Option RequestPipeline :=
  match s.connections[k]? with
  | none => none
  | some c =>
    if s.Waiting ∧ Delivers c result then
      match (handleClientRead result).run c with
      | .error _ _ => none
      | .ok _ c' =>
        some { s with
          connections := s.connections.set k c'
          handing := (c'.handed.drop c.handed.length).map fun data => (k, data) }
    else none

/-- What the task with a number sends. -/
def taskSends (s : RequestPipeline) (task : Nat) : List (Nat × Sent) :=
  match s.jobs[task]? with
  | none => []
  | some (k, data) =>
    match s.connections[k]? with
    | none => []
    | some c => (responses server c.peerAddr data).map fun sent => (k, sent)

def workerStep (s : RequestPipeline) (w : Nat) : Option RequestPipeline :=
  (ThreadPool.step s.pool (.worker w)).map fun pool =>
    { s with
      pool := pool
      sent := s.sent ++ (pool.executed.drop s.pool.executed.length).flatMap (taskSends server s) }

def step (s : RequestPipeline) : Act → Option RequestPipeline
  | .accept sockfd peerAddr =>
    if s.Waiting then some { s with connections := s.connections ++ [accepted sockfd peerAddr] }
    else none
  | .read k result => s.readStep k result
  | .sendFails k errorMsg =>
    match s.connections[k]? with
    | none => none
    | some c =>
      match (TcpConnection.handleError errorMsg).run c with
      | .error _ _ => none
      | .ok _ c' => some { s with connections := s.connections.set k c' }
  | .submit =>
    match s.handing with
    | [] => none
    | job :: handing =>
      if s.Outside then
        (ThreadPool.step s.pool .submit).map fun pool =>
          { s with pool := pool, handing := handing, jobs := s.jobs ++ [job] }
      else none
  | .enqueue i =>
    (ThreadPool.step s.pool (.enqueue i)).map fun pool => { s with pool := pool }
  | .notifyOne i woken =>
    (ThreadPool.step s.pool (.notifyOne i woken)).map fun pool => { s with pool := pool }
  | .worker w => s.workerStep server w

/-- The ways an act can go. -/
inductive Moves (s : RequestPipeline) : Act → RequestPipeline → Prop
  | accepts {sockfd peerAddr} : s.Waiting → Moves s (.accept sockfd peerAddr)
      { s with connections := s.connections ++ [accepted sockfd peerAddr] }
  | reads {k result c c'} : s.connections[k]? = some c → s.Waiting → Delivers c result →
      (handleClientRead result).run c = .ok () c' → Moves s (.read k result)
      { s with
        connections := s.connections.set k c'
        handing := (c'.handed.drop c.handed.length).map fun data => (k, data) }
  | fails {k errorMsg c c'} : s.connections[k]? = some c →
      (TcpConnection.handleError errorMsg).run c = .ok () c' → Moves s (.sendFails k errorMsg)
      { s with connections := s.connections.set k c' }
  | submits {job handing pool} : s.handing = job :: handing → s.Outside →
      ThreadPool.step s.pool .submit = some pool → Moves s .submit
      { s with pool := pool, handing := handing, jobs := s.jobs ++ [job] }
  | enqueues {i pool} : ThreadPool.step s.pool (.enqueue i) = some pool →
      Moves s (.enqueue i) { s with pool := pool }
  | notifies {i woken pool} : ThreadPool.step s.pool (.notifyOne i woken) = some pool →
      Moves s (.notifyOne i woken) { s with pool := pool }
  | works {w pool} : ThreadPool.step s.pool (.worker w) = some pool → Moves s (.worker w)
      { s with
        pool := pool
        sent := s.sent ++ (pool.executed.drop s.pool.executed.length).flatMap (taskSends server s) }

variable {server} {s t : RequestPipeline}

theorem moves_of_step {act : Act} (h : step server s act = some t) : Moves server s act t := by
  cases act with
  | accept sockfd peerAddr =>
    simp only [step] at h
    split at h
    · rename_i hwaiting
      cases h
      exact .accepts hwaiting
    · cases h
  | read k result =>
    simp only [step, readStep] at h
    split at h
    · cases h
    rename_i c hc
    split at h
    · rename_i hguard
      split at h
      · cases h
      · rename_i c' hrun
        cases h
        exact .reads hc hguard.1 hguard.2 hrun
    · cases h
  | sendFails k errorMsg =>
    simp only [step] at h
    split at h
    · cases h
    rename_i c hc
    split at h
    · cases h
    · rename_i c' hrun
      cases h
      exact .fails hc hrun
  | submit =>
    simp only [step] at h
    split at h
    · cases h
    rename_i job handing hhanding
    split at h
    · rename_i houtside
      obtain ⟨pool, hpool, rfl⟩ := Option.map_eq_some_iff.mp h
      exact .submits hhanding houtside hpool
    · cases h
  | enqueue i =>
    obtain ⟨pool, hpool, rfl⟩ := Option.map_eq_some_iff.mp h
    exact .enqueues hpool
  | notifyOne i woken =>
    obtain ⟨pool, hpool, rfl⟩ := Option.map_eq_some_iff.mp h
    exact .notifies hpool
  | worker w =>
    obtain ⟨pool, hpool, rfl⟩ := Option.map_eq_some_iff.mp h
    exact .works hpool

end RequestPipeline

end Mprpc
