import Mprpc.StalledServer

namespace Mprpc.SharedProgress

open Transport RpcServer SharedServer CallProgress LocalCalls EnvelopeTrip ServerAnswers
open Library.Transition

variable {μ : Type} {server : RpcServer μ} {workers : Nat} {s t : SharedServer} {act : Act}
  {i j k : Nat} {d d' : Deployment}

section Queue

/-- The number of frames of a peer that wait for a worker. -/
def waiting (s : SharedServer) (i : Nat) : Nat :=
  match s.peers[i]? with
  | none => 0
  | some peer => peer.deployment.tasks.length

/-- The queue is made of the tasks of the peers. -/
def InStep (s : SharedServer) : Prop := ∀ i, s.queue.count i = waiting s i

theorem own_tasks {act : Deployment.Act} (hread : ∀ result, act ≠ .read result)
    (hserve : ∀ k, act ≠ .serve k) (h : Deployment.step server workers d act = some d') :
    d'.tasks = d.tasks := by
  cases act with
  | read result => exact absurd rfl (hread result)
  | serve k => exact absurd rfl (hserve k)
  | call request =>
    obtain ⟨session, -, rfl⟩ := Option.map_eq_some_iff.mp h
    rfl
  | send result =>
    obtain ⟨session, -, rfl⟩ := Option.map_eq_some_iff.mp h
    rfl
  | recv outcome =>
    obtain ⟨session, -, rfl⟩ := Option.map_eq_some_iff.mp h
    rfl

end Queue

section Drain

end Drain

section Lift

/-- A step of a stub that has the server for itself, up to the `held` workers that others hold. -/
def lift (i held : Nat) : Deployment.Act → StalledServer.Act
  | .call request => .server (.call i request)
  | .send result => .server (.send i result)
  | .recv outcome => .server (.recv i outcome)
  | .read result => .server (.read i result)
  | .serve k => .server (.serve (held + k))

/-- Only frames of this stub wait behind those that are held up, and there is a worker for them. -/
structure Alone (workers : Nat) (s : StalledServer) (front : List Nat) (i : Nat) (d : Deployment) :
    Prop where
  peer : s.server.peers[i]? = some ⟨true, d⟩
  queue : s.server.queue = front ++ List.replicate d.tasks.length i
  other : i ∉ front
  reads : i ∉ s.full
  free : front.length < workers

variable {s t : StalledServer} {front : List Nat}

theorem Alone.own (h : Alone workers s front i d) {act : Deployment.Act}
    (hread : ∀ result, act ≠ .read result) (hserve : ∀ k, act ≠ .serve k)
    (hstep : Deployment.step server workers d act = some d') :
    ∃ u, s.server.onPeer i true (fun d => Deployment.step server workers d act) = some u ∧
      Alone workers ⟨u, s.full⟩ front i d' := by
  have hlt := (List.getElem?_eq_some_iff.mp h.peer).1
  refine ⟨{ s.server with peers := s.server.peers.set i ⟨true, d'⟩ }, ?_,
    List.getElem?_set_self hlt, ?_, h.other, h.reads, h.free⟩
  · simp [onPeer, h.peer, hstep]
  · rw [own_tasks hread hserve hstep]
    exact h.queue

end Lift

end Mprpc.SharedProgress
