import Mprpc.LocalCalls
import Mprpc.ReadOutcomes
import Mprpc.RequestPipeline
import Mprpc.ServerAnswers
import Mprpc.TaskOrder

namespace Mprpc.PipelineAnswers

open Transport RpcServer TcpServer RequestPipeline
open ServerFraming ServerReads ReadOutcomes TaskOrder
open Library.Incremental Library.Transition

variable {μ : Type} {server : RpcServer μ} {s t : RequestPipeline} {act : Act}

section Turns

variable {pool pool' : ThreadPool} {order : List Nat} {requested hardwareConcurrency : Nat}

/-- The loop submits one task after the other: all calls but the last have returned, and the
tasks have come into the queue in their order. -/
inductive InTurn : List Nat → List ThreadPool.Submitter → Prop
  | outside (m : Nat) : InTurn (List.range m) (List.replicate m .returned)
  | tested (m : Nat) : InTurn (List.range m) (List.replicate m .returned ++ [.tested])
  | enqueued (m : Nat) : InTurn (List.range (m + 1)) (List.replicate m .returned ++ [.enqueued])

theorem InTurn.length_le {submitters : List ThreadPool.Submitter} (h : InTurn order submitters) :
    order.length ≤ submitters.length := by
  cases h <;> simp

theorem InTurn.mem_lt {submitters : List ThreadPool.Submitter} (h : InTurn order submitters)
    {i : Nat} (hi : i ∈ order) : i < submitters.length := by
  cases h <;> simp at hi ⊢ <;> omega

theorem InTurn.eq_range {submitters : List ThreadPool.Submitter} (h : InTurn order submitters) :
    order = List.range order.length := by
  cases h <;> simp

theorem InTurn.outside_length {submitters : List ThreadPool.Submitter}
    (h : InTurn order submitters) (houtside : ∀ submitter ∈ submitters, submitter = .returned) :
    order.length = submitters.length := by
  cases h with
  | outside m => simp
  | tested m =>
    have hlast := houtside .tested (by simp)
    cases hlast
  | enqueued m => simp

theorem getElem?_snoc_replicate {m i : Nat} {last x : ThreadPool.Submitter}
    (h : (List.replicate m .returned ++ [last])[i]? = some x) (hx : x ≠ .returned) :
    i = m ∧ x = last := by
  by_cases hi : i < m
  · rw [List.getElem?_append_left (by simpa using hi), List.getElem?_replicate, if_pos hi] at h
    exact absurd (Option.some.inj h).symm hx
  · rw [List.getElem?_append_right (by simpa using hi), List.length_replicate] at h
    have hlast := List.mem_singleton.mp (List.mem_of_getElem? h)
    have hlen := (List.getElem?_eq_some_iff.mp h).1
    rw [List.length_singleton] at hlen
    exact ⟨by omega, hlast⟩

theorem set_snoc_replicate (m : Nat) (last new : ThreadPool.Submitter) :
    (List.replicate m ThreadPool.Submitter.returned ++ [last]).set m new =
      List.replicate m .returned ++ [new] := by
  rw [List.set_append_right _ _ (by simp)]
  simp

theorem InTurn.submits {submitters : List ThreadPool.Submitter} (h : InTurn order submitters)
    (houtside : ∀ submitter ∈ submitters, submitter = .returned) :
    InTurn order (submitters ++ [.tested]) := by
  cases h with
  | outside m => exact .tested m
  | tested m => cases houtside .tested (by simp)
  | enqueued m => cases houtside .enqueued (by simp)

theorem InTurn.enqueues {submitters : List ThreadPool.Submitter} (h : InTurn order submitters)
    {i : Nat} (hold : submitters[i]? = some .tested) :
    InTurn (order ++ [i]) (submitters.set i .enqueued) := by
  cases h with
  | outside m =>
    have hmem := List.eq_of_mem_replicate (List.mem_of_getElem? hold)
    cases hmem
  | tested m =>
    obtain ⟨rfl, -⟩ := getElem?_snoc_replicate hold (by simp)
    rw [set_snoc_replicate, ← List.range_succ]
    exact .enqueued i
  | enqueued m =>
    obtain ⟨-, hlast⟩ := getElem?_snoc_replicate hold (by simp)
    cases hlast

theorem InTurn.notifies {submitters : List ThreadPool.Submitter} (h : InTurn order submitters)
    {i : Nat} (hold : submitters[i]? = some .enqueued) :
    InTurn order (submitters.set i .returned) := by
  cases h with
  | outside m =>
    have hmem := List.eq_of_mem_replicate (List.mem_of_getElem? hold)
    cases hmem
  | tested m =>
    obtain ⟨-, hlast⟩ := getElem?_snoc_replicate hold (by simp)
    cases hlast
  | enqueued m =>
    obtain ⟨rfl, -⟩ := getElem?_snoc_replicate hold (by simp)
    rw [set_snoc_replicate, ← List.replicate_succ']
    exact .outside (i + 1)

theorem InTurn.moves (h : InTurn order pool.submitters) {act : ThreadPool.Act}
    (hmoves : ThreadPool.Moves pool act pool') (hrunning : pool.stop = false)
    (hsubmit : act = .submit → ∀ submitter ∈ pool.submitters, submitter = .returned) :
    InTurn (order ++ (entering act).toList) pool'.submitters := by
  have hkeep : entering act = none → InTurn order pool'.submitters →
      InTurn (order ++ (entering act).toList) pool'.submitters := by
    intro hnone hturn
    rwa [hnone, Option.toList_none, List.append_nil]
  cases hmoves with
  | refused hstop =>
    rw [hrunning] at hstop
    cases hstop
  | tested => exact hkeep rfl (h.submits (hsubmit rfl))
  | enqueues hold => exact h.enqueues hold
  | notifiesWorker hold => exact hkeep rfl (h.notifies hold)
  | notifiesWaiter hold => exact hkeep rfl (h.notifies hold)
  | notifiesNobody hold => exact hkeep rfl (h.notifies hold)
  | _ => exact hkeep rfl h

end Turns

section Pool

variable {requested hardwareConcurrency : Nat}

/-- What the pool does in a run of the pipeline is a run of its own, in which the loop takes its
turns. -/
structure PoolReached (requested hardwareConcurrency : Nat) (s : RequestPipeline) : Prop where
  reached : ∃ acts, run ThreadPool.step (ThreadPool.new requested hardwareConcurrency) acts =
    some s.pool ∧ InTurn (enqueued acts) s.pool.submitters
  running : s.pool.stop = false
  numbered : s.jobs.length = s.pool.submitters.length

theorem PoolReached.step_pool (h : PoolReached requested hardwareConcurrency s)
    {act : ThreadPool.Act} {pool : ThreadPool} (hstep : ThreadPool.step s.pool act = some pool)
    (hsubmit : act = .submit → s.Outside) :
    ∃ acts, run ThreadPool.step (ThreadPool.new requested hardwareConcurrency) acts = some pool ∧
      InTurn (enqueued acts) pool.submitters := by
  obtain ⟨acts, hrun, hturn⟩ := h.reached
  refine ⟨acts ++ [act], run_append_some.mpr ⟨_, hrun, run_cons_some.mpr ⟨_, hstep, rfl⟩⟩, ?_⟩
  have hlast : enqueued (acts ++ [act]) = enqueued acts ++ (entering act).toList := by
    rw [enqueued, List.filterMap_append]
    cases hact : entering act <;> simp [enqueued, hact]
  rw [hlast]
  exact hturn.moves (ThreadPool.moves_of_step hstep) h.running hsubmit

theorem PoolReached.moves (h : PoolReached requested hardwareConcurrency s)
    (hmoves : RequestPipeline.Moves server s act t) :
    PoolReached requested hardwareConcurrency t := by
  cases hmoves with
  | accepts => exact ⟨h.reached, h.running, h.numbered⟩
  | reads => exact ⟨h.reached, h.running, h.numbered⟩
  | fails => exact ⟨h.reached, h.running, h.numbered⟩
  | @submits job handing pool hhanding houtside hpool =>
    have hreached := h.step_pool hpool fun _ => houtside
    cases ThreadPool.moves_of_step hpool with
    | refused hstop =>
      rw [h.running] at hstop
      cases hstop
    | tested => exact ⟨hreached, h.running, by simp [h.numbered]⟩
  | @enqueues i pool hpool =>
    have hreached := h.step_pool hpool fun hact => by cases hact
    cases ThreadPool.moves_of_step hpool with
    | enqueues => exact ⟨hreached, h.running, by simp [h.numbered]⟩
  | @notifies i woken pool hpool =>
    have hreached := h.step_pool hpool fun hact => by cases hact
    cases ThreadPool.moves_of_step hpool with
    | notifiesWorker => exact ⟨hreached, h.running, by simp [h.numbered]⟩
    | notifiesWaiter => exact ⟨hreached, h.running, by simp [h.numbered]⟩
    | notifiesNobody => exact ⟨hreached, h.running, by simp [h.numbered]⟩
  | @works w pool hpool =>
    have hreached := h.step_pool hpool fun hact => by cases hact
    cases ThreadPool.moves_of_step hpool with
    | leaves => exact ⟨hreached, h.running, h.numbered⟩
    | sleeps => exact ⟨hreached, h.running, h.numbered⟩
    | takes => exact ⟨hreached, h.running, h.numbered⟩
    | runs => exact ⟨hreached, h.running, h.numbered⟩
    | finishes => exact ⟨hreached, h.running, h.numbered⟩

theorem start_reached (requested hardwareConcurrency : Nat) :
    PoolReached requested hardwareConcurrency (start requested hardwareConcurrency) where
  reached := ⟨[], rfl, .outside 0⟩
  running := rfl
  numbered := rfl

end Pool

section Streams

def chunk (k : Nat) : Act → Option Bytes
  | .read k' (.bytes data) => if k' = k then some data else none
  | _ => none

/-- What the loop has read from a connection, one piece for each `readv`. -/
def readBy (k : Nat) (acts : List Act) : List Bytes := acts.filterMap (chunk k)

/-- The data of the jobs that came from a connection. -/
def ofConnection (k : Nat) (jobs : List (Nat × Bytes)) : List Bytes :=
  (jobs.filter fun job => job.1 = k).map (·.2)

/-- The jobs are the frames that the decoder cuts out of what was read. -/
structure Delivered (reads : Nat → List Bytes) (s : RequestPipeline) : Prop where
  live : ∀ (k : Nat) (c : TcpConnection), s.connections[k]? = some c →
    Live c.inputBuffer ∧ c.messageCallback = true
  buffered : ∀ (k : Nat) (c : TcpConnection), s.connections[k]? = some c → .removed ∉ c.effects →
    c.inputBuffer.readable = (frames.receive [] (reads k)).2
  delivered : ∀ k, ofConnection k (s.jobs ++ s.handing) = (frames.receive [] (reads k)).1
  absent : ∀ k, s.connections.length ≤ k → reads k = []

theorem ofConnection_append (k : Nat) (jobs more : List (Nat × Bytes)) :
    ofConnection k (jobs ++ more) = ofConnection k jobs ++ ofConnection k more := by
  rw [ofConnection, List.filter_append, List.map_append]
  rfl

theorem getElem?_snoc_cases {α : Type} {l : List α} {k : Nat} {last x : α}
    (h : (l ++ [last])[k]? = some x) : l[k]? = some x ∨ k = l.length ∧ x = last := by
  by_cases hk : k < l.length
  · rw [List.getElem?_append_left hk] at h
    exact .inl h
  · rw [List.getElem?_append_right (Nat.not_lt.mp hk)] at h
    have hlen := (List.getElem?_eq_some_iff.mp h).1
    rw [List.length_singleton] at hlen
    exact .inr ⟨by omega, List.mem_singleton.mp (List.mem_of_getElem? h)⟩

theorem ofConnection_map (k k' : Nat) (data : List Bytes) :
    ofConnection k (data.map fun x => (k', x)) = if k' = k then data else [] := by
  rw [ofConnection, List.filter_map, List.map_map]
  by_cases h : k' = k
  · rw [if_pos h, List.filter_eq_self.mpr (by simp [h])]
    exact List.map_id' data
  · rw [if_neg h, List.filter_eq_nil_iff.mpr (by simp [h])]
    rfl

/-- What a call leaves of a connection that only sends. -/
structure Sends (c c' : TcpConnection) : Prop where
  inputBuffer : c'.inputBuffer = c.inputBuffer
  messageCallback : c'.messageCallback = c.messageCallback
  peerAddr : c'.peerAddr = c.peerAddr
  effects : c.effects <+: c'.effects

theorem handleError_sends {c c' : TcpConnection} {errorMsg : Text}
    (h : (TcpConnection.handleError errorMsg).run c = .ok () c') : Sends c c' := by
  by_cases hcb : c.errorCallback = true
  · simp [TcpConnection.handleError, TcpConnection.emit, hcb] at h
    cases h
    exact ⟨rfl, rfl, rfl, List.prefix_append _ _⟩
  · simp [TcpConnection.handleError, hcb] at h
    cases h
    exact ⟨rfl, rfl, rfl, List.prefix_rfl⟩

theorem receive_snoc (chunks : List Bytes) (data : Bytes) :
    frames.receive [] (chunks ++ [data]) =
      ((frames.receive [] chunks).1 ++ (frames.drain ((frames.receive [] chunks).2 ++ data)).1,
        (frames.drain ((frames.receive [] chunks).2 ++ data)).2.getD []) := by
  rw [Decoder.receive_append]
  simp [Decoder.receive]

/-- One read, as the connection and its jobs see it. -/
theorem read_receives {chunks : List Bytes} {c c' : TcpConnection} {result : Readv}
    (hread : ServerRead c result c') (live : Live c.inputBuffer)
    (hbuffered : c.inputBuffer.readable = (frames.receive [] chunks).2) (k : Nat) :
    ∃ data, c'.handed = c.handed ++ data ∧ (.removed ∉ c'.effects → c'.inputBuffer.readable =
      (frames.receive [] (chunks ++ (chunk k (.read k result)).toList)).2) ∧
    (frames.receive [] (chunks ++ (chunk k (.read k result)).toList)).1 =
      (frames.receive [] chunks).1 ++ data := by
  have hnone : ∀ errno, chunk k (.read k (.error errno)) = none := fun _ => rfl
  cases hread with
  | waits =>
    rw [hnone, Option.toList_none, List.append_nil]
    exact ⟨[], (List.append_nil _).symm, fun _ => hbuffered, (List.append_nil _).symm⟩
  | ends live' callback closed removed size =>
    refine ⟨[], by rw [closed.handed, List.append_nil], fun h => absurd removed h, ?_⟩
    cases result with
    | error errno => rw [hnone, Option.toList_none, List.append_nil, List.append_nil]
    | bytes data =>
      obtain rfl : data = [] := List.length_eq_zero_iff.mp size
      rw [chunk, if_pos rfl, Option.toList_some, receive_snoc, List.append_nil, ← hbuffered,
        Decoder.drain_wait frames live.waiting]
  | @delivers data b live' readable =>
    refine ⟨(frames.drain (c.inputBuffer.readable ++ data)).1, ?_, fun _ => ?_, ?_⟩
    · exact TcpConnection.messagesOf_append _ _
    · rw [chunk, if_pos rfl, Option.toList_some, receive_snoc, ← hbuffered]
      exact readable
    · rw [chunk, if_pos rfl, Option.toList_some, receive_snoc, ← hbuffered]

theorem of_getElem?_set {α : Type} {l : List α} {k : Nat} {new : α} {P : Nat → α → Prop}
    (hnew : P k new) (hold : ∀ k' x, k ≠ k' → l[k']? = some x → P k' x) {k' : Nat} {x : α}
    (h : (l.set k new)[k']? = some x) : P k' x := by
  by_cases hk : k = k'
  · subst hk
    have hlt := (List.getElem?_eq_some_iff.mp h).1
    rw [List.length_set] at hlt
    rw [List.getElem?_set_self hlt] at h
    exact Option.some.inj h ▸ hnew
  · rw [List.getElem?_set_ne hk] at h
    exact hold k' x hk h

theorem Delivered.moves {reads : Nat → List Bytes} (h : Delivered reads s)
    (hmoves : RequestPipeline.Moves server s act t) :
    Delivered (fun k => reads k ++ (chunk k act).toList) t := by
  have hsilent : (∀ k, chunk k act = none) → Delivered reads t →
      Delivered (fun k => reads k ++ (chunk k act).toList) t := by
    intro hnone hdelivered
    simpa only [hnone, Option.toList_none, List.append_nil] using hdelivered
  cases hmoves with
  | @accepts sockfd peerAddr hwaiting =>
    refine hsilent (fun _ => rfl) ⟨?_, ?_, h.delivered, ?_⟩
    · intro k c hc
      obtain hold | hnew := getElem?_snoc_cases hc
      · exact h.live k c hold
      · rw [hnew.2]
        exact ⟨accepted_live sockfd peerAddr, rfl⟩
    · intro k c hc hlisted
      obtain hold | hnew := getElem?_snoc_cases hc
      · exact h.buffered k c hold hlisted
      · rw [hnew.2, h.absent k hnew.1.ge]
        exact Buffer.new_readable _
    · intro k hk
      rw [List.length_append] at hk
      exact h.absent k (by omega)
  | @reads k result c c' hc hwaiting hdelivers hrun =>
    obtain ⟨live, hcb⟩ := h.live k c hc
    obtain ⟨hlisted, hfit⟩ := hdelivers
    have hk := (List.getElem?_eq_some_iff.mp hc).1
    obtain ⟨c'', hrun', hread⟩ := handleClientRead_outcome live hcb hfit
    cases hrun'.symm.trans hrun
    obtain ⟨data, hhanded, hbuffered, hdelivered⟩ :=
      read_receives hread live (h.buffered k c hc hlisted) k
    have hother : ∀ k', k ≠ k' → chunk k' (.read k result) = none := by
      intro k' hne
      cases result with
      | error errno => rfl
      | bytes data => exact if_neg hne
    refine ⟨?_, ?_, ?_, ?_⟩
    · exact fun k' x hx => of_getElem?_set (P := fun _ x => Live x.inputBuffer ∧
        x.messageCallback = true) (hread.live live hcb) (fun k' x _ => h.live k' x) hx
    · refine fun k' x hx => of_getElem?_set (P := fun k' x => .removed ∉ x.effects →
        x.inputBuffer.readable =
          (frames.receive [] (reads k' ++ (chunk k' (.read k result)).toList)).2)
        hbuffered ?_ hx
      intro k' x hne hx
      rw [hother k' hne, Option.toList_none, List.append_nil]
      exact h.buffered k' x hx
    · intro k'
      have hbefore := h.delivered k'
      rw [hwaiting.1, List.append_nil] at hbefore
      change ofConnection k' (s.jobs ++ (c'.handed.drop c.handed.length).map fun x => (k, x)) = _
      rw [hhanded, List.drop_left, ofConnection_append, hbefore, ofConnection_map]
      by_cases hne : k = k'
      · subst hne
        rw [if_pos rfl, hdelivered]
      · rw [if_neg hne, hother k' hne, Option.toList_none, List.append_nil, List.append_nil]
    · intro k' hk'
      rw [List.length_set] at hk'
      rw [hother k' (by omega), Option.toList_none, List.append_nil]
      exact h.absent k' hk'
  | @fails k errorMsg c c' hc hrun =>
    obtain ⟨live, hcb⟩ := h.live k c hc
    obtain ⟨hbuf, hcb', -, heffects⟩ := handleError_sends hrun
    refine hsilent (fun _ => rfl)
      ⟨?_, ?_, h.delivered, fun k' hk' => h.absent k' (by simpa using hk')⟩
    · exact fun k' x hx => of_getElem?_set (P := fun _ x => Live x.inputBuffer ∧
        x.messageCallback = true) ⟨hbuf ▸ live, hcb'.trans hcb⟩ (fun k' x _ => h.live k' x) hx
    · refine fun k' x hx => of_getElem?_set (P := fun k' x => .removed ∉ x.effects →
        x.inputBuffer.readable = (frames.receive [] (reads k')).2)
        ?_ (fun k' x _ => h.buffered k' x) hx
      intro hstill
      rw [hbuf]
      exact h.buffered k c hc fun hmem => hstill (heffects.subset hmem)
  | submits hhanding =>
    refine hsilent (fun _ => rfl) ⟨h.live, h.buffered, ?_, h.absent⟩
    intro k
    rw [← h.delivered k, hhanding]
    exact congrArg (ofConnection k) (List.append_assoc _ _ _)
  | _ => exact hsilent (fun _ => rfl) ⟨h.live, h.buffered, h.delivered, h.absent⟩

end Streams

section Answers

variable {requested hardwareConcurrency : Nat} {reads : Nat → List Bytes}

theorem executed_grows {pool pool' : ThreadPool} {act : ThreadPool.Act}
    (h : ThreadPool.Moves pool act pool') : pool.executed <+: pool'.executed := by
  cases h with
  | runs => exact List.prefix_append _ _
  | _ => exact List.prefix_rfl

theorem executed_kept (hmoves : RequestPipeline.Moves server s act t)
    (hworker : ∀ w, act ≠ .worker w) : t.pool.executed = s.pool.executed ∧ t.sent = s.sent := by
  cases hmoves with
  | submits _ _ hpool => cases ThreadPool.moves_of_step hpool <;> exact ⟨rfl, rfl⟩
  | enqueues hpool =>
    cases ThreadPool.moves_of_step hpool
    exact ⟨rfl, rfl⟩
  | notifies hpool => cases ThreadPool.moves_of_step hpool <;> exact ⟨rfl, rfl⟩
  | works => exact absurd rfl (hworker _)
  | _ => exact ⟨rfl, rfl⟩

theorem Delivered.known (h : Delivered reads s) {job : Nat × Bytes} (hjob : job ∈ s.jobs) :
    job.1 < s.connections.length := by
  by_contra hk
  have hnone := h.delivered job.1
  rw [h.absent job.1 (Nat.not_lt.mp hk)] at hnone
  have hmem : job.2 ∈ ofConnection job.1 (s.jobs ++ s.handing) :=
    List.mem_map_of_mem (List.mem_filter.mpr ⟨List.mem_append_left _ hjob, by simp⟩)
  rw [hnone] at hmem
  cases hmem

theorem peerAddr_kept (h : Delivered reads s) (hmoves : RequestPipeline.Moves server s act t)
    {k : Nat} (hk : k < s.connections.length) :
    (t.connections[k]?).map (·.peerAddr) = (s.connections[k]?).map (·.peerAddr) := by
  have hset : ∀ {k' : Nat} {c c' : TcpConnection}, s.connections[k']? = some c →
      c'.peerAddr = c.peerAddr → ((s.connections.set k' c')[k]?).map (·.peerAddr) =
        (s.connections[k]?).map (·.peerAddr) := by
    intro k' c c' hc hpeer
    by_cases hkk : k' = k
    · subst hkk
      rw [List.getElem?_set_self hk, hc, Option.map_some, Option.map_some, hpeer]
    · rw [List.getElem?_set_ne hkk]
  cases hmoves with
  | accepts =>
    dsimp only
    rw [List.getElem?_append_left hk]
  | reads hc hwaiting hdelivers hrun =>
    obtain ⟨live, hcb⟩ := h.live _ _ hc
    obtain ⟨c'', hrun', hread⟩ := handleClientRead_outcome live hcb hdelivers.2
    cases hrun'.symm.trans hrun
    exact hset hc hread.peerAddr
  | fails hc hrun => exact hset hc (handleError_sends hrun).peerAddr
  | _ => rfl

theorem jobs_kept (hmoves : RequestPipeline.Moves server s act t) {task : Nat}
    (htask : task < s.jobs.length) : t.jobs[task]? = s.jobs[task]? := by
  cases hmoves with
  | submits => exact List.getElem?_append_left htask
  | _ => rfl

theorem taskSends_kept (h : Delivered reads s) (hmoves : RequestPipeline.Moves server s act t)
    {task : Nat} (htask : task < s.jobs.length) :
    taskSends server t task = taskSends server s task := by
  have hjob := List.getElem?_eq_getElem htask
  have hk := h.known (List.getElem_mem htask)
  have hpeer := peerAddr_kept h hmoves hk
  obtain ⟨c, hc⟩ : ∃ c, s.connections[s.jobs[task].1]? = some c :=
    ⟨_, List.getElem?_eq_getElem hk⟩
  rw [hc, Option.map_some] at hpeer
  obtain ⟨c', hc', hsame⟩ := Option.map_eq_some_iff.mp hpeer
  simp only [taskSends, jobs_kept hmoves htask, hjob, hc, hc', hsame]

/-- What has been sent is what the tasks send that have run, in their order. -/
theorem sent_moves (hpool : PoolReached requested hardwareConcurrency s) (h : Delivered reads s)
    (hsent : s.sent = s.pool.executed.flatMap (taskSends server s))
    (hmoves : RequestPipeline.Moves server s act t) :
    t.sent = t.pool.executed.flatMap (taskSends server t) := by
  have hknown : ∀ task ∈ s.pool.executed, task < s.jobs.length := by
    intro task htask
    obtain ⟨acts, hrun, hturn⟩ := hpool.reached
    obtain ⟨taken, horder, hperm⟩ := (run_ordered hrun).taken
    rw [hpool.numbered]
    apply hturn.mem_lt
    rw [horder]
    exact List.mem_append_left _ (hperm.mem_iff.mpr (List.mem_append_left _ htask))
  by_cases hworker : ∀ w, act ≠ .worker w
  · obtain ⟨hexecuted, hsame⟩ := executed_kept hmoves hworker
    rw [hsame, hexecuted, hsent]
    exact List.flatMap_congr fun task htask => (taskSends_kept h hmoves (hknown task htask)).symm
  · obtain ⟨w, hw⟩ := not_forall.mp hworker
    obtain rfl := not_not.mp hw
    cases hmoves with
    | works hstep =>
      obtain ⟨more, hmore⟩ := executed_grows (ThreadPool.moves_of_step hstep)
      change s.sent ++ _ = _
      rw [← hmore, List.drop_left, List.flatMap_append, hsent]
      rfl

/-- The calls of `send` on a connection. -/
def sentTo (k : Nat) (sent : List (Nat × Sent)) : List Sent :=
  (sent.filter fun p => p.1 = k).map (·.2)

theorem sentTo_append (k : Nat) (sent more : List (Nat × Sent)) :
    sentTo k (sent ++ more) = sentTo k sent ++ sentTo k more := by
  rw [sentTo, List.filter_append, List.map_append]
  rfl

theorem sentTo_tasks {k : Nat} {c : TcpConnection} (hc : s.connections[k]? = some c)
    (tasks : List Nat) :
    sentTo k (tasks.flatMap (taskSends server s)) =
      (ofConnection k (tasks.filterMap (s.jobs[·]?))).flatMap (responses server c.peerAddr) := by
  induction tasks with
  | nil => rfl
  | cons task tasks ih =>
    rw [List.flatMap_cons, sentTo_append, ih]
    cases hjob : s.jobs[task]? with
    | none => simp [taskSends, hjob, sentTo]
    | some job =>
      obtain ⟨k', data⟩ := job
      have hhead : sentTo k (taskSends server s task) =
          (if k' = k then [data] else []).flatMap (responses server c.peerAddr) := by
        by_cases hk : k' = k
        · subst hk
          simp [taskSends, hjob, hc, sentTo, List.filter_map, Function.comp_def]
        · cases hother : s.connections[k']? <;>
            simp [taskSends, hjob, hother, sentTo, hk, List.filter_map, Function.comp_def]
      have htail : (task :: tasks).filterMap (s.jobs[·]?) =
          [data].map (fun x => (k', x)) ++ tasks.filterMap (s.jobs[·]?) := by
        simp [hjob]
      rw [hhead, htail, ofConnection_append, ofConnection_map, List.flatMap_append]

/-- Nothing of what was read is under way. -/
structure AtRest (s : RequestPipeline) : Prop where
  waiting : s.Waiting
  tasks : s.pool.tasks = []
  workers : running s.pool = []

theorem range_filterMap {α : Type} (l : List α) {m : Nat} (hm : m ≤ l.length) :
    (List.range m).filterMap (l[·]?) = l.take m := by
  induction m with
  | zero => rfl
  | succ m ih =>
    have hlt : m < l.length := hm
    rw [List.range_succ, List.filterMap_append, ih (Nat.le_of_succ_le hm), List.take_add_one]
    simp [List.getElem?_eq_getElem hlt]

theorem ofConnection_perm (k : Nat) {jobs jobs' : List (Nat × Bytes)} (h : jobs.Perm jobs') :
    (ofConnection k jobs).Perm (ofConnection k jobs') := (h.filter _).map _

theorem run_delivered {acts : List Act}
    (h : run (step server) (start requested hardwareConcurrency) acts = some s) :
    PoolReached requested hardwareConcurrency s ∧ Delivered (fun k => readBy k acts) s ∧
      s.sent = s.pool.executed.flatMap (taskSends server s) := by
  refine run_history (P := fun acts s => PoolReached requested hardwareConcurrency s ∧
    Delivered (fun k => readBy k acts) s ∧
      s.sent = s.pool.executed.flatMap (taskSends server s)) ?_ ?_ h
  · rintro before u act v ⟨hpool, hdelivered, hsent⟩ hv
    have hmoves := moves_of_step hv
    have hreads : (fun k => readBy k (before ++ [act])) =
        fun k => readBy k before ++ (chunk k act).toList := by
      funext k
      rw [readBy, List.filterMap_append]
      cases hact : chunk k act <;> simp [readBy, hact]
    rw [hreads]
    exact ⟨hpool.moves hmoves, hdelivered.moves hmoves, sent_moves hpool hdelivered hsent hmoves⟩
  · exact ⟨start_reached _ _, ⟨(fun k c hc => by cases hc), (fun k c hc => by cases hc),
      fun k => rfl, fun k hk => rfl⟩, rfl⟩

/-- What has been taken of the jobs so far, and what is still in the queue or in hand. -/
theorem jobs_split {acts : List ThreadPool.Act}
    (hnumbered : s.jobs.length = s.pool.submitters.length)
    (hrun : run ThreadPool.step (ThreadPool.new requested hardwareConcurrency) acts = some s.pool)
    (hturn : InTurn (enqueued acts) s.pool.submitters) (k : Nat) :
    (ofConnection k (s.pool.executed.filterMap (s.jobs[·]?)) ++
      ofConnection k ((running s.pool ++ s.pool.tasks).filterMap (s.jobs[·]?))).Perm
        (ofConnection k (s.jobs.take (enqueued acts).length)) := by
  obtain ⟨taken, horder, hperm⟩ := (run_ordered hrun).taken
  have hall : (s.pool.executed ++ (running s.pool ++ s.pool.tasks)).Perm
      (List.range (enqueued acts).length) := by
    rw [← hturn.eq_range, ← List.append_assoc]
    exact (hperm.symm.append_right _).trans (horder ▸ List.Perm.refl _)
  have hle : (enqueued acts).length ≤ s.jobs.length := hnumbered ▸ hturn.length_le
  rw [← ofConnection_append, ← List.filterMap_append, ← range_filterMap s.jobs hle]
  exact ofConnection_perm k (hall.filterMap _)

/-- Every frame that a connection has delivered is answered once, on that connection, whichever
worker serves it; with a single worker the answers come in the order of the frames. -/
theorem delivered_answered (hsafe : ServerAnswers.ErrorsSerialize server) {acts : List Act}
    (h : run (step server) (start requested hardwareConcurrency) acts = some s) {k : Nat}
    {c : TcpConnection} (hc : s.connections[k]? = some c) :
    (∀ data, ∃ sent, responses server c.peerAddr data = [sent] ∧
      ServerAnswers.Genuine server c.peerAddr sent) ∧
    (∃ rest, (sentTo k s.sent ++ rest).Perm
      ((frames.receive [] (readBy k acts)).1.flatMap (responses server c.peerAddr))) ∧
    (AtRest s → (sentTo k s.sent).Perm
      ((frames.receive [] (readBy k acts)).1.flatMap (responses server c.peerAddr))) ∧
    (ThreadPool.threadCount requested hardwareConcurrency = 1 → sentTo k s.sent <+:
      (frames.receive [] (readBy k acts)).1.flatMap (responses server c.peerAddr)) := by
  obtain ⟨⟨⟨poolActs, hrun, hturn⟩, hrunning, hnumbered⟩, hdelivered, hsent⟩ := run_delivered h
  have hframes := hdelivered.delivered k
  have hsplit := jobs_split hnumbered hrun hturn k
  have hjobs : s.jobs ++ s.handing = s.jobs.take (enqueued poolActs).length ++
      (s.jobs.drop (enqueued poolActs).length ++ s.handing) := by
    rw [← List.append_assoc, List.take_append_drop]
  rw [hsent, sentTo_tasks hc, ← hframes]
  refine ⟨?_, ?_, ?_, ?_⟩
  · intro data
    obtain ⟨sent, hresponse, hgenuine, -⟩ :=
      ServerAnswers.handleRpcRequest_cases hsafe c.peerAddr data []
    exact ⟨sent, by simp only [responses, hresponse, List.nil_append], hgenuine⟩
  · rw [hjobs, ofConnection_append, List.flatMap_append]
    refine ⟨(ofConnection k ((running s.pool ++ s.pool.tasks).filterMap (s.jobs[·]?))).flatMap
      (responses server c.peerAddr) ++ (ofConnection k
        (s.jobs.drop (enqueued poolActs).length ++ s.handing)).flatMap
          (responses server c.peerAddr), ?_⟩
    rw [← List.append_assoc, ← List.flatMap_append]
    exact (hsplit.flatMap_right _).append_right _
  · rintro ⟨⟨hhanding, houtside⟩, htasks, hworkers⟩
    rw [htasks, hworkers, hturn.outside_length houtside, ← hnumbered, List.take_length] at hsplit
    rw [hhanding, List.append_nil]
    refine List.Perm.flatMap_right _ ?_
    simpa [ofConnection] using hsplit
  · intro hone
    have hle : (enqueued poolActs).length ≤ s.jobs.length := hnumbered ▸ hturn.length_le
    have hdone : s.pool.executed.filterMap (s.jobs[·]?) <+: s.jobs := by
      have hprefix := (executed_in_order hrun hone).filterMap (s.jobs[·]?)
      rw [hturn.eq_range, range_filterMap s.jobs hle] at hprefix
      exact hprefix.trans (List.take_prefix _ _)
    obtain ⟨later, hlater⟩ := hdone.trans (List.prefix_append s.jobs s.handing)
    rw [← hlater, ofConnection_append, List.flatMap_append]
    exact List.prefix_append _ _

/-- Two connections and two workers: the request of the first connection comes in two pieces
and is served last. -/
def twoActs : List Act :=
  [.accept 5 [], .accept 6 [], .read 0 (.bytes [0, 0, 0, 11, 8, 7]),
    .read 1 (.bytes [0, 0, 0, 11, 8, 9, 18, 1, 65, 26, 1, 66, 42, 1, 2]), .submit, .enqueue 0,
    .notifyOne 0 none, .worker 0, .read 0 (.bytes [18, 1, 65, 26, 1, 66, 42, 1, 1]), .submit,
    .enqueue 1, .worker 1, .notifyOne 1 none, .worker 1, .worker 0, .worker 0, .worker 1]

theorem delivered_answered_two : ∃ s c, run (step LocalCalls.wireServer) (start 2 4) twoActs =
    some s ∧ s.connections[0]? = some c ∧ sentTo 0 s.sent ≠ [] ∧ (sentTo 0 s.sent).Perm
      ((frames.receive [] (readBy 0 twoActs)).1.flatMap
        (responses LocalCalls.wireServer c.peerAddr)) := by
  have hrun : (run (step LocalCalls.wireServer) (start 2 4) twoActs).map (fun s =>
      (s.connections[0]?.isSome, decide (s.Waiting), s.pool.tasks, running s.pool,
        (sentTo 0 s.sent).length)) = some (true, true, [], [], 1) := by decide +kernel
  obtain ⟨s, hs, hfields⟩ := Option.map_eq_some_iff.mp hrun
  simp only [Prod.mk.injEq] at hfields
  obtain ⟨hconnection, hwaiting, htasks, hworkers, hcount⟩ := hfields
  obtain ⟨c, hc⟩ := Option.isSome_iff_exists.mp hconnection
  have hanswered := delivered_answered LocalCalls.wireServer_errorsSerialize hs hc
  refine ⟨s, c, hs, hc, ?_, hanswered.2.2.1 ⟨of_decide_eq_true hwaiting, htasks, hworkers⟩⟩
  rw [← List.length_pos_iff, hcount]
  exact Nat.one_pos

end Answers

end Mprpc.PipelineAnswers
