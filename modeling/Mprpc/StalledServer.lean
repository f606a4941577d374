import Mprpc.SharedServer

namespace Mprpc

open Transport RpcServer Library.Transition

/-- A server together with the peers that do not read: `full` are those whose sockets take no
more bytes. -/
structure StalledServer where
  server : SharedServer
  full : List Nat
deriving DecidableEq, Repr

namespace StalledServer

inductive Act
  | server (act : SharedServer.Act)
  | stall (i : Nat)
  | resume (i : Nat)
deriving DecidableEq, Repr

def start : StalledServer := ⟨.start, []⟩

/-- `send` tries again as long as the socket is full, so that its worker comes to no end before
the peer reads or the connection is gone. -/
def holds (s : StalledServer) (i : Nat) : Bool :=
  decide (i ∈ s.full) && match s.server.peers[i]? with
    | none => false
    | some peer => peer.deployment.connection.state = .connected

variable {μ : Type} (server : RpcServer μ) (workers : Nat)

/-- The worker of such a frame keeps its place among those at work. -/
def onServer (s : StalledServer) (act : SharedServer.Act) : Option StalledServer :=
  (SharedServer.step server workers s.server act).map fun t => { s with server := t }

def step (s : StalledServer) : Act → Option StalledServer
  | .server (.serve k) =>
    if (s.server.queue[k]?).any s.holds then none else s.onServer server workers (.serve k)
  | .server act => s.onServer server workers act
  | .stall i => some { s with full := i :: s.full }
  | .resume i => some { s with full := s.full.filter (· ≠ i) }

/-- Stubs begin their calls as they do on a server whose peers all read. -/
def Allowed (server : RpcServer μ) (s : StalledServer) : Act → Prop
  | .server act => SharedServer.Allowed server s.server act
  | _ => True

variable {server : RpcServer μ} {workers : Nat} {s t : StalledServer}

theorem silent_allowed (s : StalledServer) {acts : List Act}
    (h : ∀ act ∈ acts, ∀ i request, act ≠ .server (.call i request)) :
    Guarded (step server workers) (Allowed server) s acts := by
  refine guarded_of_invariant (P := fun _ => True) (fun _ _ _ _ _ _ => trivial) ?_ trivial h
  intro s act _ hact
  cases act with
  | server own =>
    cases own with
    | call i request => exact absurd rfl (hact i request)
    | _ => trivial
  | _ => trivial

end StalledServer

end Mprpc
